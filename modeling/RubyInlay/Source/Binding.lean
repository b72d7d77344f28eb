import RubyInlay.Source.NamedGroup
import RubyInlay.Source.Tree
import RubyInlay.Text.Blank

/-! The local variables that a construct introduces. A construct names the subtrees that hold its
variables: targets of an assignment, parameters, or patterns. Each of these three readings says of a
node whether it is a variable itself or which of its parts to look into. -/

namespace RubyInlay.Source

/-- What one node contributes to the variables around it: names of its own, or those of some of its
children. -/
inductive Role (t : Tree) where
  | binds (names : List String)
  | through (parts : List Tree) (inside : ∀ p ∈ parts, p ∈ t.children)

namespace Role

variable {t : Tree}

def nothing : Role t := binds []

def throughNamed (t : Tree) : Role t :=
  through t.namedChildren fun _ h => t.mem_of_mem_namedChildren h

/-- Looks into the children under the given fields. -/
def throughFields (t : Tree) (fs : List Field) : Role t :=
  through (fs.filterMap t.child?) fun _ h => by
    obtain ⟨f, -, hf⟩ := List.mem_filterMap.1 h
    exact t.mem_of_child? hf

end Role

/-- The names found from a node on, under a reading of nodes. -/
def bound (role : (t : Tree) → Role t) (t : Tree) : List String :=
  match role t with
  | .binds names => names
  | .through parts inside =>
    parts.attach.flatMap fun ⟨p, h⟩ =>
      have := Tree.size_lt_of_mem (inside p h)
      bound role p
termination_by t.size
decreasing_by exact this

theorem bound_of_binds {role : (t : Tree) → Role t} {t : Tree} {names : List String}
    (h : role t = .binds names) : bound role t = names := by
  rw [bound, h]

theorem bound_of_through {role : (t : Tree) → Role t} {t : Tree} {parts : List Tree}
    {inside : ∀ p ∈ parts, p ∈ t.children} (h : role t = .through parts inside) :
    bound role t = parts.flatMap (bound role) := by
  rw [bound, h]
  simp [List.flatMap_def]

variable (source : Bytes)

/-! ### Targets -/

/-- The kinds that hold targets of a multiple assignment. -/
def targetLists : List String :=
  ["left_assignment_list", "destructured_left_assignment", "rest_assignment"]

def targetRole (t : Tree) : Role t :=
  if t.kind = "identifier" then .binds [t.text source]
  else if t.kind ∈ targetLists then .throughNamed t
  else .nothing

/-! ### Parameters -/

/-- The name of a parameter that has one beside a default or a mark. -/
def parameterName (t : Tree) : List String :=
  match t.child? .name with
  | some name => if name.kind = "identifier" then [name.text source] else []
  | none => []

def parameterRole (t : Tree) : Role t :=
  if t.kind = "identifier" then .binds [t.text source]
  else if t.kind = "destructured_parameter" then .throughNamed t
  else .binds (parameterName source t)

/-! ### Patterns -/

/-- The kinds of pattern that are searched for variables as a whole. -/
def patternContainers : List String :=
  ["array_pattern", "find_pattern", "hash_pattern", "parenthesized_pattern", "alternative_pattern"]

/-- Quotes and colons around the key of a pattern. -/
def isKeyMark (c : Char) : Bool :=
  c == '"' || c == '\'' || c == ':'

/-- The variable that a key of a hash pattern introduces. -/
def keyVariable (key : Tree) : String :=
  String.ofList (Text.trim isKeyMark (key.chars source))

def entryRole (t : Tree) : Role t :=
  match t.child? .value with
  | some _ => .throughFields t [.value]
  | none => .binds ((t.child? .key).toList.map (keyVariable source))

def patternRole (t : Tree) : Role t :=
  if t.kind = "identifier" then .binds [t.text source]
  else if t.kind = "keyword_pattern" then entryRole source t
  else if t.kind = "as_pattern" then .throughFields t [.value, .name]
  else if t.kind ∈ ["splat_parameter", "hash_splat_parameter"] then .throughFields t [.name]
  else if t.kind ∈ patternContainers then .throughNamed t
  else .nothing

/-! ### Named groups -/

/-- The groups of a regular expression that is matched from the left, if its text is fixed. -/
def captures (t : Tree) : List String :=
  match t.child? .operator, t.child? .left with
  | some operator, some left =>
    if operator.kind = "=~" ∧ left.kind = "regex" ∧
        ¬ left.namedChildren.any (·.kind == "interpolation") then
      (NamedGroup.names (left.chars source)).map String.ofList
    else []
  | _, _ => []

/-! ### Constructs -/

/-- The constructs that introduce variables. -/
inductive Binder where
  | assignment | parameters | exceptionVariable | loop | pattern | binary
  deriving DecidableEq, Repr

def Binder.ofKind? (kind : String) : Option Binder :=
  if kind ∈ ["assignment", "operator_assignment"] then some assignment
  else if kind ∈ ["method_parameters", "block_parameters", "lambda_parameters"] then some parameters
  else if kind = "exception_variable" then some exceptionVariable
  else if kind = "for" then some loop
  else if kind ∈ ["in_clause", "match_pattern", "test_pattern"] then some pattern
  else if kind = "binary" then some binary
  else none

/-- The names a construct of the given sort introduces. -/
def Binder.names (source : Bytes) (t : Tree) : Binder → List String
  | assignment => (t.child? .left).toList.flatMap (bound (targetRole source))
  | parameters => t.namedChildren.flatMap (bound (parameterRole source))
  | exceptionVariable => t.namedChildren.flatMap (bound (targetRole source))
  | loop => (t.child? .pattern).toList.flatMap (bound (targetRole source))
  | pattern => (t.child? .pattern).toList.flatMap (bound (patternRole source))
  | binary => captures source t

/-- The names a node introduces into the scope it stands in. -/
def introduced (t : Tree) : List String :=
  match Binder.ofKind? t.kind with
  | some binder => binder.names source t
  | none => []

end RubyInlay.Source
