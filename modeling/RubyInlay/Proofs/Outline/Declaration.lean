import Mathlib.Data.List.DropRight
import RubyInlay.Outline.Conversion
import RubyInlay.Proofs.Source.Introduction

/-! What is declared where a node is entered. Targets of an assignment, parameters and patterns are
each searched from some node on. Main statement: a search adds to the scope in force the names at the
ends of its steps, all of them and no others, takes no name out, and leaves the scopes around as they
are; so does the entry of a construct with all its searches. -/

namespace RubyInlay

open Source Relation

variable {source : Bytes} {s : Scope} {new : String → Prop}

/-! ### Texts without marks at their ends -/

namespace Text

variable {α : Type} {mark : α → Bool}

/-- What is left of a list without the marks at its ends, which are all marks that stand there. -/
structure Stripped (mark : α → Bool) (l m : List α) : Prop where
  split : ∃ front back, l = front ++ m ++ back ∧ (∀ x ∈ front, mark x) ∧ ∀ x ∈ back, mark x
  first : ∀ x ∈ m.head?, ¬ mark x
  last : ∀ x ∈ m.getLast?, ¬ mark x

theorem stripped_trim (mark : α → Bool) (l : List α) : Stripped mark l (trim mark l) := by
  have htrim : trim mark l = (l.dropWhile mark).rdropWhile mark := rfl
  rw [htrim]
  refine ⟨⟨l.takeWhile mark, (l.dropWhile mark).rtakeWhile mark, ?_, ?_, ?_⟩, ?_, ?_⟩
  · rw [List.append_assoc, List.rdropWhile_append_rtakeWhile, List.takeWhile_append_dropWhile]
  · intro x hx
    exact List.mem_takeWhile_imp hx
  · intro x hx
    exact List.mem_rtakeWhile_imp hx
  · intro x hx
    obtain ⟨back, hback⟩ := List.rdropWhile_prefix mark (l.dropWhile mark)
    have hhead : (l.dropWhile mark).head? = some x := by
      rw [← hback, List.head?_append, Option.mem_def.1 hx, Option.some_or]
    have hmark := List.head?_dropWhile_not mark l
    rw [hhead] at hmark
    simp [hmark]
  · intro x hx
    obtain ⟨hne, rfl⟩ := List.mem_getLast?_eq_getLast hx
    exact List.rdropWhile_last_not mark (l.dropWhile mark) hne

end Text

namespace Source

/-! ### Names in reach -/

/-- An assignment to a target assigns to a variable: an identifier behind lists of targets. -/
def AssignedIn (source : Bytes) (t : Tree) (name : String) : Prop :=
  ∃ o, ReflTransGen TargetStep t o ∧ o.kind = "identifier" ∧ name = o.text source

/-- A parameter takes a value under a name: its own, or that of a parameter of its group. -/
def TakenIn (source : Bytes) (t : Tree) (name : String) : Prop :=
  ∃ u, ReflTransGen ParameterStep t u ∧ ∃ o, ParameterName u o ∧ name = o.text source

/-- A match of a pattern gives a value to a variable of it. -/
def MatchedIn (source : Bytes) (t : Tree) (name : String) : Prop :=
  ∃ u, ReflTransGen PatternStep t u ∧ ∃ o, PatternName source u o name

/-! ### Scopes with more names -/

/-- The names of a scope are joined by new ones, and nothing else changes. -/
structure Scope.Gains (s : Scope) (new : String → Prop) (s' : Scope) : Prop where
  names : ∀ name, name ∈ s'.names ↔ name ∈ s.names ∨ new name
  outer : s'.outer = s.outer

theorem Scope.gains_add {names : List String} (h : ∀ name, name ∈ names ↔ new name) :
    s.Gains new (s.add names) where
  names name := by
    rw [← h name]
    show name ∈ names ++ s.names ↔ _
    rw [List.mem_append, or_comm]
  outer := rfl

/-- The scope in force right behind the start of a node, before its names are added. -/
def Scope.openedBy (s : Scope) (kind : String) : Scope :=
  ((Opening.ofKind? kind).map s.enter).getD s

end Source

theorem scopeWithin_eq_add (source : Bytes) (s : Scope) (t : Tree) :
    scopeWithin source s t = (s.openedBy t.kind).add (introduced source t) := by
  unfold scopeWithin Scope.openedBy
  cases Opening.ofKind? t.kind <;> rfl

/-- The scopes to which a walk comes back as it leaves the nodes on its path. -/
def savedScopes (path : List Unfinished) : List Scope :=
  path.filterMap (·.saved)

/-- A search adds the names in its reach to the scope in force, where a key counts as its text without
the marks around it. A walk that enters a node adds the names that the node introduces; it may save
the scope around the node, and the scopes that it has saved on its path stay as they are. -/
theorem declared_names_in_reach (source : Bytes) (s : Scope) (t : Tree) :
    s.Gains (AssignedIn source t) (s.add (bound (targetRole source) t)) ∧
    s.Gains (TakenIn source t) (s.add (bound (parameterRole source) t)) ∧
    s.Gains (MatchedIn source t) (s.add (bound (patternRole source) t)) ∧
    (∀ key : Tree, Text.Stripped isKeyMark (key.chars source) (keyVariable source key).toList) ∧
    ∀ above : List Unfinished,
      let w := Walk.descend source s t above
      (s.openedBy t.kind).Gains (fun name => ∃ o, Introduces source t o name) w.scope ∧
      savedScopes (w.top :: w.above) =
        ((Opening.ofKind? t.kind).map fun _ => s).toList ++ savedScopes above := by
  refine ⟨Scope.gains_add fun _ => mem_bound_targetRole,
    Scope.gains_add fun _ => mem_bound_parameterRole,
    Scope.gains_add fun _ => mem_bound_patternRole, ?_, ?_⟩
  · intro key
    rw [keyVariable, String.toList_ofList]
    exact Text.stripped_trim isKeyMark (key.chars source)
  intro above w
  constructor
  · show (s.openedBy t.kind).Gains _ (scopeWithin source s t)
    rw [scopeWithin_eq_add]
    exact Scope.gains_add fun _ => mem_introduced
  · simp only [w, savedScopes, Walk.descend]
    cases Opening.ofKind? t.kind <;> rfl

end RubyInlay
