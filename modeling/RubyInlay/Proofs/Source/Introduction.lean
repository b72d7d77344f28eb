import Mathlib.Logic.Relation
import RubyInlay.Proofs.Source.Place
import RubyInlay.Source.Binding

/-! Where a construct introduces its variables. The names that a construct introduces are found by a
search that goes through its targets, parameters or patterns; here they are described by the steps
that such a search may take and by the parts of the text that it ends at. Main statement: a name is
introduced exactly if some part introduces it. -/

namespace RubyInlay.Source

open Relation

variable {source : Bytes} {t u c l o : Tree} {name : String}

/-! ### Searches -/

namespace Role

/-- The parts that a node has looked into. -/
def parts : Role t → List Tree
  | binds _ => []
  | through parts _ => parts

/-- The names that a node has itself. -/
def names : Role t → List String
  | binds names => names
  | through _ _ => []

@[simp] theorem parts_binds (ns : List String) : (binds ns : Role t).parts = [] := rfl

@[simp] theorem names_binds (ns : List String) : (binds ns : Role t).names = ns := rfl

@[simp] theorem parts_nothing : (nothing : Role t).parts = [] := rfl

@[simp] theorem names_nothing : (nothing : Role t).names = [] := rfl

@[simp] theorem parts_throughNamed : (throughNamed t).parts = t.namedChildren := rfl

@[simp] theorem names_throughNamed : (throughNamed t).names = [] := rfl

@[simp] theorem parts_throughFields (fs : List Field) :
    (throughFields t fs).parts = fs.filterMap t.child? := rfl

@[simp] theorem names_throughFields (fs : List Field) : (throughFields t fs).names = [] := rfl

end Role

/-- A name is found where some chain of parts ends at a node that has it. -/
theorem mem_bound {role : (t : Tree) → Role t} :
    name ∈ bound role t ↔
      ∃ u, ReflTransGen (fun t c => c ∈ (role t).parts) t u ∧ name ∈ (role u).names := by
  constructor
  · induction t using bound.induct role with
    | case1 t ns h =>
      rw [bound_of_binds h]
      exact fun hn => ⟨t, .refl, by rwa [h]⟩
    | case2 t ps inside h ih =>
      rw [bound_of_through h]
      intro hn
      obtain ⟨p, hp, hn⟩ := List.mem_flatMap.1 hn
      obtain ⟨u, hu, hn⟩ := ih p hp hn
      exact ⟨u, .head (by rwa [h]) hu, hn⟩
  · rintro ⟨u, hu, hn⟩
    induction hu using ReflTransGen.head_induction_on with
    | refl =>
      cases h : role u with
      | binds ns => rw [bound_of_binds h]; rwa [h] at hn
      | through ps inside => simp [h, Role.names] at hn
    | @head t c hc _ ih =>
      cases h : role t with
      | binds ns => simp [h] at hc
      | through ps inside =>
        rw [bound_of_through h]
        exact List.mem_flatMap.2 ⟨c, by rwa [h] at hc, ih⟩

/-! ### Targets -/

/-- From a list of targets to its members. -/
def TargetStep (t c : Tree) : Prop :=
  t.kind ∈ targetLists ∧ c ∈ t.namedChildren

theorem mem_parts_targetRole : c ∈ (targetRole source t).parts ↔ TargetStep t c := by
  unfold TargetStep targetRole
  split_ifs with hi hl
  · simp [hi, targetLists]
  · simp [hl]
  · simp [hl]

theorem mem_names_targetRole :
    name ∈ (targetRole source t).names ↔ t.kind = "identifier" ∧ name = t.text source := by
  unfold targetRole
  split_ifs with hi hl <;> simp [hi]

theorem mem_bound_targetRole :
    name ∈ bound (targetRole source) t ↔
      ∃ o, ReflTransGen TargetStep t o ∧ o.kind = "identifier" ∧ name = o.text source := by
  simp only [mem_bound, mem_parts_targetRole, mem_names_targetRole]

/-! ### Parameters -/

/-- From a group of parameters to its members. -/
def ParameterStep (t c : Tree) : Prop :=
  t.kind = "destructured_parameter" ∧ c ∈ t.namedChildren

/-- The identifier that a parameter is, or that stands as its name beside a default or a mark. -/
def ParameterName (t o : Tree) : Prop :=
  t.kind = "identifier" ∧ o = t ∨
    t.kind ≠ "identifier" ∧ t.kind ≠ "destructured_parameter" ∧
      t.child? .name = some o ∧ o.kind = "identifier"

theorem mem_parts_parameterRole : c ∈ (parameterRole source t).parts ↔ ParameterStep t c := by
  unfold ParameterStep parameterRole
  split_ifs with hi hd
  · simp [hi]
  · simp [hd]
  · simp [hd]

theorem mem_names_parameterRole :
    name ∈ (parameterRole source t).names ↔ ∃ o, ParameterName t o ∧ name = o.text source := by
  unfold parameterRole ParameterName
  split_ifs with hi hd
  · simp [hi]
  · simp [hd]
  · cases hn : t.child? .name with
    | none => simp [parameterName, hi, hn]
    | some o => by_cases ho : o.kind = "identifier" <;> simp [parameterName, hi, hd, hn, ho]

theorem mem_bound_parameterRole :
    name ∈ bound (parameterRole source) t ↔
      ∃ u, ReflTransGen ParameterStep t u ∧ ∃ o, ParameterName u o ∧ name = o.text source := by
  simp only [mem_bound, mem_parts_parameterRole, mem_names_parameterRole]

/-! ### Patterns -/

/-- From a pattern to the patterns in it: all parts of a container, the value and the name of an
alias, the name behind a mark, and the value of an entry that has one. -/
def PatternStep (t c : Tree) : Prop :=
  t.kind ∈ patternContainers ∧ c ∈ t.namedChildren ∨
    t.kind = "as_pattern" ∧ (t.child? .value = some c ∨ t.child? .name = some c) ∨
    t.kind ∈ ["splat_parameter", "hash_splat_parameter"] ∧ t.child? .name = some c ∨
    t.kind = "keyword_pattern" ∧ t.child? .value = some c

/-- The part of a pattern that is a variable, and its name: an identifier, or the key of an entry
without a value. -/
def PatternName (source : Bytes) (t o : Tree) (name : String) : Prop :=
  t.kind = "identifier" ∧ o = t ∧ name = o.text source ∨
    t.kind = "keyword_pattern" ∧ t.child? .value = none ∧ t.child? .key = some o ∧
      name = keyVariable source o

theorem mem_parts_patternRole : c ∈ (patternRole source t).parts ↔ PatternStep t c := by
  unfold PatternStep patternRole
  split_ifs with hi hk ha hs hc
  · simp [hi, patternContainers]
  · cases hv : t.child? .value <;> simp [entryRole, hk, hv, patternContainers, eq_comm]
  · simp [ha, patternContainers]
  · rcases List.mem_pair.1 hs with hs | hs <;> simp [hs, patternContainers]
  · simp [hk, ha, hs, hc]
  · simp [hk, ha, hs, hc]

theorem mem_names_patternRole :
    name ∈ (patternRole source t).names ↔ ∃ o, PatternName source t o name := by
  unfold PatternName patternRole
  split_ifs with hi hk ha hs hc
  · simp [hi]
  · cases hv : t.child? .value <;> cases hy : t.child? .key <;> simp [entryRole, hk, hv, hy]
  all_goals simp [hi, hk]

theorem mem_bound_patternRole :
    name ∈ bound (patternRole source) t ↔
      ∃ u, ReflTransGen PatternStep t u ∧ ∃ o, PatternName source u o name := by
  simp only [mem_bound, mem_parts_patternRole, mem_names_patternRole]

/-! ### Constructs -/

namespace Binder

/-- The kinds of node that are constructs of a sort. -/
def kinds : Binder → List String
  | assignment => ["assignment", "operator_assignment"]
  | parameters => ["method_parameters", "block_parameters", "lambda_parameters"]
  | exceptionVariable => ["exception_variable"]
  | loop => ["for"]
  | pattern => ["in_clause", "match_pattern", "test_pattern"]
  | binary => ["binary"]

theorem ofKind?_eq_some {k : String} {b : Binder} : ofKind? k = some b ↔ k ∈ b.kinds := by
  unfold ofKind?
  split_ifs with h₁ h₂ h₃ h₄ h₅ h₆
  · simp only [List.mem_cons, List.not_mem_nil, or_false] at h₁
    rcases h₁ with rfl | rfl <;> cases b <;> simp [kinds]
  · simp only [List.mem_cons, List.not_mem_nil, or_false] at h₂
    rcases h₂ with rfl | rfl | rfl <;> cases b <;> simp [kinds]
  · subst h₃; cases b <;> simp [kinds]
  · subst h₄; cases b <;> simp [kinds]
  · simp only [List.mem_cons, List.not_mem_nil, or_false] at h₅
    rcases h₅ with rfl | rfl | rfl <;> cases b <;> simp [kinds]
  · subst h₆; cases b <;> simp [kinds]
  · cases b <;> simp_all [kinds]

end Binder

/-- The left side of an assignment, the variables of a rescue clause and the variables of a loop are
assigned to. -/
def AssignsTo (t l : Tree) : Prop :=
  t.kind ∈ Binder.assignment.kinds ∧ t.child? .left = some l ∨
    t.kind ∈ Binder.exceptionVariable.kinds ∧ l ∈ t.namedChildren ∨
    t.kind ∈ Binder.loop.kinds ∧ t.child? .pattern = some l

/-- A match of a regular expression of fixed text, which stands on the left. -/
def MatchesLiteral (t l : Tree) : Prop :=
  t.kind ∈ Binder.binary.kinds ∧ (∃ operator, t.child? .operator = some operator ∧
    operator.kind = "=~") ∧ t.child? .left = some l ∧ l.kind = "regex" ∧
    ∀ c ∈ l.namedChildren, c.kind ≠ "interpolation"

/-- `Introduces source t o name`: the construct `t` introduces the variable `name` by its part `o`,
an identifier, the key of a pattern or a regular expression. -/
inductive Introduces (source : Bytes) (t : Tree) : Tree → String → Prop
  | target {l o : Tree} (hl : AssignsTo t l) (h : ReflTransGen TargetStep l o)
      (ho : o.kind = "identifier") : Introduces source t o (o.text source)
  | parameter {l u o : Tree} (ht : t.kind ∈ Binder.parameters.kinds) (hl : l ∈ t.namedChildren)
      (h : ReflTransGen ParameterStep l u) (ho : ParameterName u o) :
      Introduces source t o (o.text source)
  | pattern {l u o : Tree} {name : String} (ht : t.kind ∈ Binder.pattern.kinds)
      (hl : t.child? .pattern = some l) (h : ReflTransGen PatternStep l u)
      (ho : PatternName source u o name) : Introduces source t o name
  | group {o : Tree} {name : List Char} (ho : MatchesLiteral t o)
      (hn : name ∈ NamedGroup.names (o.chars source)) : Introduces source t o (String.ofList name)

theorem mem_captures : name ∈ captures source t ↔
    (∃ o, t.child? .operator = some o ∧ o.kind = "=~") ∧ ∃ l, t.child? .left = some l ∧
      l.kind = "regex" ∧ (∀ c ∈ l.namedChildren, c.kind ≠ "interpolation") ∧
      ∃ w ∈ NamedGroup.names (l.chars source), String.ofList w = name := by
  unfold captures
  cases ho : t.child? .operator with
  | none => simp
  | some o =>
    cases hl : t.child? .left with
    | none => simp
    | some l =>
      simp only [Option.some.injEq, exists_eq_left']
      split_ifs with h
      · simpa [h.1, h.2.1] using fun _ _ _ => by simpa using h.2.2
      · simp only [List.not_mem_nil, false_iff]
        rintro ⟨ho, hl, hi, -⟩
        exact h ⟨ho, hl, by simpa using hi⟩

/-- The names that a construct introduces are those that some part of it introduces. -/
theorem mem_introduced : name ∈ introduced source t ↔ ∃ o, Introduces source t o name := by
  constructor
  · unfold introduced
    cases hb : Binder.ofKind? t.kind with
    | none => simp
    | some b =>
      have hk := Binder.ofKind?_eq_some.1 hb
      cases b with
      | assignment =>
        simp only [Binder.names, List.mem_flatMap, Option.mem_toList, mem_bound_targetRole]
        rintro ⟨l, hl, o, h, ho, rfl⟩
        exact ⟨o, .target (.inl ⟨hk, hl⟩) h ho⟩
      | parameters =>
        simp only [Binder.names, List.mem_flatMap, mem_bound_parameterRole]
        rintro ⟨l, hl, u, h, o, ho, rfl⟩
        exact ⟨o, .parameter hk hl h ho⟩
      | exceptionVariable =>
        simp only [Binder.names, List.mem_flatMap, mem_bound_targetRole]
        rintro ⟨l, hl, o, h, ho, rfl⟩
        exact ⟨o, .target (.inr (.inl ⟨hk, hl⟩)) h ho⟩
      | loop =>
        simp only [Binder.names, List.mem_flatMap, Option.mem_toList, mem_bound_targetRole]
        rintro ⟨l, hl, o, h, ho, rfl⟩
        exact ⟨o, .target (.inr (.inr ⟨hk, hl⟩)) h ho⟩
      | pattern =>
        simp only [Binder.names, List.mem_flatMap, Option.mem_toList, mem_bound_patternRole]
        rintro ⟨l, hl, u, h, o, ho⟩
        exact ⟨o, .pattern hk hl h ho⟩
      | binary =>
        simp only [Binder.names, mem_captures]
        rintro ⟨hop, l, hl, hr, hi, w, hw, rfl⟩
        exact ⟨l, .group ⟨hk, hop, hl, hr, hi⟩ hw⟩
  · rintro ⟨o, h⟩
    have names {b : Binder} (hk : t.kind ∈ b.kinds) : introduced source t = b.names source t := by
      rw [introduced, Binder.ofKind?_eq_some.2 hk]
    cases h with
    | target hl h ho =>
      rcases hl with ⟨hk, hl⟩ | ⟨hk, hl⟩ | ⟨hk, hl⟩ <;> rw [names hk]
      all_goals
        simp only [Binder.names, List.mem_flatMap, Option.mem_toList, mem_bound_targetRole]
        exact ⟨_, hl, o, h, ho, rfl⟩
    | parameter hk hl h ho =>
      rw [names hk]
      simp only [Binder.names, List.mem_flatMap, mem_bound_parameterRole]
      exact ⟨_, hl, _, h, o, ho, rfl⟩
    | pattern hk hl h ho =>
      rw [names hk]
      simp only [Binder.names, List.mem_flatMap, Option.mem_toList, mem_bound_patternRole]
      exact ⟨_, hl, _, h, o, ho⟩
    | group ho hn =>
      obtain ⟨hk, hop, hl, hr, hi⟩ := ho
      rw [names hk, Binder.names, mem_captures]
      exact ⟨hop, o, hl, hr, hi, _, hn, rfl⟩

end RubyInlay.Source
