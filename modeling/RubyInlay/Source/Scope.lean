/-! Which local variables are visible. A scope has names of its own and the names of the scopes it
is nested in, the nearest first. -/

namespace RubyInlay.Source

structure Scope where
  names : List String
  outer : List (List String)
  deriving DecidableEq, Inhabited, Repr

/-- Whether a new scope sees the variables around it. -/
inductive Opening where
  | closed | nested
  deriving DecidableEq, Repr

/-- The scope that a node of a kind opens. -/
def Opening.ofKind? (kind : String) : Option Opening :=
  if kind ∈ ["method", "singleton_method", "class", "singleton_class", "module"] then some closed
  else if kind ∈ ["block", "do_block", "lambda"] then some nested
  else none

namespace Scope

def empty : Scope := ⟨[], []⟩

/-- All names in sight. -/
def visible (s : Scope) : List String :=
  s.names ++ s.outer.flatten

instance : Membership String Scope := ⟨fun s name => name ∈ s.visible⟩

instance (name : String) (s : Scope) : Decidable (name ∈ s) :=
  inferInstanceAs (Decidable (name ∈ s.visible))

/-- Adds names to the innermost scope. -/
def add (s : Scope) (names : List String) : Scope :=
  { s with names := names ++ s.names }

/-- The scope inside an opening. -/
def enter (s : Scope) : Opening → Scope
  | .closed => empty
  | .nested => ⟨[], s.names :: s.outer⟩

theorem mem_iff {name : String} {s : Scope} :
    name ∈ s ↔ name ∈ s.names ∨ ∃ names ∈ s.outer, name ∈ names := by
  change name ∈ s.visible ↔ _
  simp [visible]

@[simp] theorem not_mem_empty (name : String) : name ∉ empty := by
  simp [mem_iff, empty]

@[simp] theorem mem_add {name : String} {s : Scope} {names : List String} :
    name ∈ s.add names ↔ name ∈ names ∨ name ∈ s := by
  simp [mem_iff, add, or_assoc]

@[simp] theorem mem_enter_nested {name : String} {s : Scope} :
    name ∈ s.enter .nested ↔ name ∈ s := by
  simp [mem_iff, enter]

end Scope

end RubyInlay.Source
