import CustomDmq.Broker

/-!
# The rules of an access list

`Acl::from_env` and `parse_rule` of `acl.rs`. A rule is `principal:operation:topic_id`, rules are
separated by semicolons, and what is not a rule is passed over. A topic that cannot be parsed
becomes topic `0`, which stands for every topic.

1. `mem_allowed_fromEnv`: the list has an entry for each text that reads as a rule.
2. `check_fromEnv_iff`: so a check passes by a rule that grants it, or by one with a topic that is
   not a number.
-/

namespace CustomDmq

variable {acl : Acl} {op : Operation} {t : UInt16}

abbrev AclEntry := String × Operation × UInt16

/-! ## Parsing -/

/-- The operation a field names, in any case. -/
def operationOf (field : List Char) : Option Operation :=
  if field.map Char.toLower = "produce".toList then some .produce
  else if field.map Char.toLower = "fetch".toList then some .fetch
  else if field.map Char.toLower = "admin".toList then some .admin
  else none

/-- The entry that `parse_rule` inserts. -/
def parseRule (rule : List Char) : Option AclEntry :=
  match rule.splitOn ':' with
  | [principal, op, topic] =>
    (operationOf op).map fun op =>
      (String.ofList principal, op, UInt16.ofNat ((parseUint 65535 topic).getD 0))
  | _ => none

namespace Acl

def addRule (acl : Acl) (rule : List Char) : Acl :=
  { acl with allowed := acl.allowed ++ (parseRule rule).toList }

/-- The rule texts of a `DMQ_ACL` string. -/
def ruleTexts (raw : String) : List (List Char) :=
  (raw.toList.splitOn ';').filter fun rule => !rule.isEmpty

/-- `from_env`, given the values of `DMQ_ACL_DENY_BY_DEFAULT` and `DMQ_ACL`. -/
def fromEnv (deny raw : Option String) : Acl :=
  let acl : Acl :=
    { allowed := []
      denyByDefault := deny.any fun v => v = "1" || v.toList.map Char.toLower = "true".toList }
  match raw with
  | some raw => (ruleTexts raw).foldl addRule acl
  | none => acl

end Acl

/-! ## What a text says -/

/-- The rule has three fields, and the first two name the principal, or everybody, and the
operation. -/
def RuleFor (principal : String) (op : Operation) (rule topic : List Char) : Prop :=
  ∃ who what, rule.splitOn ':' = [who, what, topic] ∧
    (String.ofList who = principal ∨ String.ofList who = "*") ∧ operationOf what = some op

/-- The text has a rule for the principal and the operation whose topic is a number, the topic's or
`0`. -/
def TextGrants (raw principal : String) (op : Operation) (t : UInt16) : Prop :=
  ∃ rule ∈ raw.toList.splitOn ';', ∃ topic, RuleFor principal op rule topic ∧
    ∃ n, parseUint 65535 topic = some n ∧ (n = t.toNat ∨ n = 0)

/-- The topics of the rules for the principal and the operation are all numbers. -/
def TopicsParse (raw principal : String) (op : Operation) : Prop :=
  ∀ rule ∈ raw.toList.splitOn ';', ∀ topic, RuleFor principal op rule topic →
    (parseUint 65535 topic).isSome

/-! ## The list against the text -/

namespace Acl

theorem mem_allowed_addRules {e : AclEntry} (rules : List (List Char)) (acl : Acl) :
    e ∈ (rules.foldl addRule acl).allowed ↔
      e ∈ acl.allowed ∨ ∃ rule ∈ rules, parseRule rule = some e := by
  induction rules generalizing acl with
  | nil => simp
  | cons rule rules ih =>
    rw [List.foldl_cons, ih, addRule, List.mem_append, Option.mem_toList,
      List.exists_mem_cons_iff, or_assoc]

theorem denyByDefault_addRules (rules : List (List Char)) (acl : Acl) :
    (rules.foldl addRule acl).denyByDefault = acl.denyByDefault := by
  induction rules generalizing acl with
  | nil => rfl
  | cons rule rules ih => rw [List.foldl_cons, ih]; rfl

/-- The entries of the list are those of the texts between semicolons; an empty text is none. -/
theorem mem_allowed_fromEnv {e : AclEntry} (deny : Option String) (raw : String) :
    e ∈ (fromEnv deny (some raw)).allowed ↔
      ∃ rule ∈ raw.toList.splitOn ';', parseRule rule = some e := by
  show e ∈ ((ruleTexts raw).foldl addRule _).allowed ↔ _
  rw [mem_allowed_addRules]
  simp only [List.not_mem_nil, false_or, ruleTexts, List.mem_filter, Bool.not_eq_true',
    List.isEmpty_eq_false_iff]
  constructor
  · rintro ⟨rule, ⟨hmem, -⟩, hparse⟩
    exact ⟨rule, hmem, hparse⟩
  · rintro ⟨rule, hmem, hparse⟩
    refine ⟨rule, ⟨hmem, ?_⟩, hparse⟩
    rintro rfl
    simp [parseRule] at hparse

theorem denyByDefault_fromEnv (deny : Option String) (raw : String) :
    (fromEnv deny (some raw)).denyByDefault = (fromEnv deny none).denyByDefault :=
  denyByDefault_addRules (ruleTexts raw) _

/-- A rule allows the principal the operation on the topic: by its name or by `*`, for the topic or
for topic `0`. -/
def covers (acl : Acl) (principal : String) (op : Operation) (t : UInt16) : Bool :=
  acl.allowed.contains (principal, op, t) || acl.allowed.contains (principal, op, 0) ||
    acl.allowed.contains ("*", op, t) || acl.allowed.contains ("*", op, 0)

end Acl

theorem isConfigured_of_deny (hdeny : acl.denyByDefault = true) : acl.isConfigured = true := by
  rw [Acl.isConfigured, hdeny]
  rfl

theorem check_of_not_covers (hdeny : acl.denyByDefault = true) {principal : String}
    (h : acl.covers principal op t = false) :
    acl.check principal op t = .error ⟨.permissionDenied, "acl denied"⟩ := by
  rw [Acl.covers] at h
  rw [Acl.check, isConfigured_of_deny hdeny, h, hdeny]
  rfl

/-- With everything else denied, a check passes by an entry of the list. -/
theorem check_ok_iff (hdeny : acl.denyByDefault = true) {principal : String} :
    acl.check principal op t = .ok () ↔
      ∃ who topic, (who, op, topic) ∈ acl.allowed ∧ (who = principal ∨ who = "*") ∧
        (topic = t ∨ topic = 0) := by
  have hcovers : acl.check principal op t = .ok () ↔ acl.covers principal op t = true := by
    cases hc : acl.covers principal op t with
    | false => simp [check_of_not_covers hdeny hc]
    | true =>
      rw [Acl.covers] at hc
      rw [Acl.check, isConfigured_of_deny hdeny, hc]
      exact iff_of_true rfl rfl
  rw [hcovers, Acl.covers]
  simp only [Bool.or_eq_true, List.contains_iff_mem]
  constructor
  · rintro (((h | h) | h) | h)
    · exact ⟨_, _, h, Or.inl rfl, Or.inl rfl⟩
    · exact ⟨_, _, h, Or.inl rfl, Or.inr rfl⟩
    · exact ⟨_, _, h, Or.inr rfl, Or.inl rfl⟩
    · exact ⟨_, _, h, Or.inr rfl, Or.inr rfl⟩
  · rintro ⟨who, topic, h, rfl | rfl, rfl | rfl⟩
    · exact Or.inl (Or.inl (Or.inl h))
    · exact Or.inl (Or.inl (Or.inr h))
    · exact Or.inl (Or.inr h)
    · exact Or.inr h

theorem parseRule_eq_some {rule : List Char} {who : String} :
    parseRule rule = some (who, op, t) ↔ ∃ principal what topic,
      rule.splitOn ':' = [principal, what, topic] ∧ String.ofList principal = who ∧
        operationOf what = some op ∧ UInt16.ofNat ((parseUint 65535 topic).getD 0) = t := by
  unfold parseRule
  constructor
  · intro h
    split at h
    · rename_i principal what topic hsplit
      obtain ⟨op', hop, he⟩ := Option.map_eq_some_iff.mp h
      simp only [Prod.mk.injEq] at he
      obtain ⟨rfl, rfl, rfl⟩ := he
      exact ⟨principal, what, topic, hsplit, rfl, hop, rfl⟩
    · cases h
  · rintro ⟨principal, what, topic, hsplit, rfl, hop, rfl⟩
    rw [hsplit]
    simp [hop]

theorem le_of_parseUint {max n : ℕ} {s : List Char} (h : parseUint max s = some n) : n ≤ max := by
  unfold parseUint at h
  simp only [Option.bind_eq_bind] at h
  split_ifs at h
  · cases h
  · obtain ⟨m, -, h⟩ := Option.bind_eq_some_iff.mp h
    split_ifs at h with hle
    exact Option.some.inj h ▸ hle

theorem topic_covers_iff (topic : List Char) (t : UInt16) :
    (UInt16.ofNat ((parseUint 65535 topic).getD 0) = t ∨
        UInt16.ofNat ((parseUint 65535 topic).getD 0) = 0) ↔
      (∃ n, parseUint 65535 topic = some n ∧ (n = t.toNat ∨ n = 0)) ∨
        parseUint 65535 topic = none := by
  cases hp : parseUint 65535 topic with
  | none => simp
  | some n =>
    have hlt : n < 2 ^ 16 := Nat.lt_succ_of_le (le_of_parseUint hp)
    have heq : ∀ u : UInt16, UInt16.ofNat n = u ↔ n = u.toNat := by
      intro u
      rw [← UInt16.toNat_inj, UInt16.toNat_ofNat_of_lt' hlt]
    simp [heq]

/-- **What a check allows.** -/
theorem check_fromEnv_iff {deny : Option String} {raw principal : String}
    (hdeny : (Acl.fromEnv deny none).denyByDefault = true) :
    (Acl.fromEnv deny (some raw)).check principal op t = .ok () ↔
      TextGrants raw principal op t ∨ ¬ TopicsParse raw principal op := by
  rw [check_ok_iff ((Acl.denyByDefault_fromEnv deny raw).trans hdeny)]
  constructor
  · rintro ⟨who, topic, hmem, hwho, htopic⟩
    obtain ⟨rule, hrule, hparse⟩ := (Acl.mem_allowed_fromEnv deny raw).mp hmem
    obtain ⟨first, what, field, hsplit, rfl, hop, rfl⟩ := parseRule_eq_some.mp hparse
    have hfor : RuleFor principal op rule field := ⟨first, what, hsplit, hwho, hop⟩
    rcases (topic_covers_iff field t).mp htopic with hgrants | hnone
    · exact Or.inl ⟨rule, hrule, field, hfor, hgrants⟩
    · refine Or.inr fun hall => ?_
      have hsome := hall rule hrule field hfor
      rw [hnone] at hsome
      cases hsome
  · intro h
    obtain ⟨rule, hrule, field, ⟨first, what, hsplit, hwho, hop⟩, hcovers⟩ :
        ∃ rule ∈ raw.toList.splitOn ';', ∃ field, RuleFor principal op rule field ∧
          ((∃ n, parseUint 65535 field = some n ∧ (n = t.toNat ∨ n = 0)) ∨
            parseUint 65535 field = none) := by
      rcases h with ⟨rule, hrule, field, hfor, hgrants⟩ | hnot
      · exact ⟨rule, hrule, field, hfor, Or.inl hgrants⟩
      · simp only [TopicsParse, not_forall, Option.not_isSome_iff_eq_none] at hnot
        obtain ⟨rule, hrule, field, hfor, hnone⟩ := hnot
        exact ⟨rule, hrule, field, hfor, Or.inr hnone⟩
    refine ⟨String.ofList first, _, (Acl.mem_allowed_fromEnv deny raw).mpr ⟨rule, hrule,
      parseRule_eq_some.mpr ⟨first, what, field, hsplit, rfl, hop, rfl⟩⟩, hwho,
      (topic_covers_iff field t).mpr hcovers⟩

/-- **The text means what it says** exactly when it grants the operation, or the topics of its rules
for the principal and the operation are all numbers. -/
theorem acl_text_exact_iff (deny : Option String) (raw principal : String) (op : Operation)
    (t : UInt16) (hdeny : (Acl.fromEnv deny none).denyByDefault = true) :
    ((Acl.fromEnv deny (some raw)).check principal op t = .ok () ↔
        TextGrants raw principal op t) ↔
      (TextGrants raw principal op t ∨ TopicsParse raw principal op) := by
  rw [check_fromEnv_iff hdeny]
  tauto

theorem acl_text_exact_alice :
    (Acl.fromEnv (some "1") (some "bob:admin:;alice:produce:1")).check "alice" .produce 1 = .ok () ↔
      TextGrants "bob:admin:;alice:produce:1" "alice" .produce 1 :=
  (acl_text_exact_iff (some "1") "bob:admin:;alice:produce:1" "alice" .produce 1
    (by decide +kernel)).mpr (Or.inl ⟨"alice:produce:1".toList, by decide +kernel, ['1'],
      ⟨"alice".toList, "produce".toList, by decide +kernel, by decide +kernel, by decide +kernel⟩,
      1, by decide +kernel, by decide +kernel⟩)

/-- A name in place of the topic's number opens every topic. -/
theorem topic_name_opens_all :
    (Acl.fromEnv (some "1") (some "alice:produce:orders")).check "alice" .produce 7 = .ok () ∧
      ¬ TextGrants "alice:produce:orders" "alice" .produce 7 := by
  refine ⟨by decide +kernel, ?_⟩
  rintro ⟨rule, hrule, topic, ⟨who, what, hsplit, -, -⟩, n, hn, -⟩
  have hrules : "alice:produce:orders".toList.splitOn ';' = ["alice:produce:orders".toList] := by
    decide +kernel
  have hfields : "alice:produce:orders".toList.splitOn ':' =
      ["alice".toList, "produce".toList, "orders".toList] := by
    decide +kernel
  rw [hrules, List.mem_singleton] at hrule
  rw [hrule, hfields] at hsplit
  simp only [List.cons.injEq] at hsplit
  have hnone : parseUint 65535 "orders".toList = none := by decide +kernel
  rw [← hsplit.2.2.1, hnone] at hn
  cases hn

end CustomDmq
