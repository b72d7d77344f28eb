import RubyInlay.Span

/-! The outline of a source: its nodes with the two constructs that can carry a hint told apart from
the rest. -/

namespace RubyInlay

/-- What an expression refers to. -/
inductive Referent where
  | methodCall (name : String)
  | constant (name : String)
  | localVariable (name : String)
  | other (kind : String)
  deriving DecidableEq, Inhabited, Repr

structure Expression where
  referent : Referent
  span : Span
  deriving DecidableEq, Inhabited, Repr

inductive Node where
  | plain (kind : String) (span : Span) (children : List Node)
  /-- A clause that rescues the exceptions it names; without any it is bare. -/
  | rescueClause (exceptions : List String) (span : Span) (children : List Node)
  /-- The value that an entry `key:` leaves out. -/
  | omittedValue (span : Span) (value : Expression)
  | expression (value : Expression)
  deriving Inhabited, Repr

/-- The classes of nodes that can be listened for. -/
inductive NodeClass where
  | plain | rescueClause | omittedValue
  | methodCall | constant | localVariable | otherExpression
  deriving DecidableEq, Repr

def Referent.nodeClass : Referent → NodeClass
  | methodCall _ => .methodCall
  | constant _ => .constant
  | localVariable _ => .localVariable
  | other _ => .otherExpression

namespace Node

def nodeClass : Node → NodeClass
  | plain .. => .plain
  | rescueClause .. => .rescueClause
  | omittedValue .. => .omittedValue
  | expression value => value.referent.nodeClass

def span : Node → Span
  | plain _ span _ => span
  | rescueClause _ span _ => span
  | omittedValue span _ => span
  | expression value => value.span

/-- The one child of an omitted value is the expression it stands for. -/
def children : Node → List Node
  | plain _ _ children => children
  | rescueClause _ _ children => children
  | omittedValue _ value => [expression value]
  | expression _ => []

/-! ### Document order -/

mutual

/-- A node before its children, the children from left to right. -/
def preorder : Node → List Node
  | plain kind span children => plain kind span children :: preorders children
  | rescueClause exceptions span children =>
    rescueClause exceptions span children :: preorders children
  | omittedValue span value => [omittedValue span value, expression value]
  | expression value => [expression value]

def preorders : List Node → List Node
  | [] => []
  | n :: ns => preorder n ++ preorders ns

end

@[simp] theorem preorders_nil : preorders [] = [] := by simp [preorders]

@[simp] theorem preorders_cons (n : Node) (ns : List Node) :
    preorders (n :: ns) = n.preorder ++ preorders ns := by simp [preorders]

@[simp] theorem preorders_append (ms ns : List Node) :
    preorders (ms ++ ns) = preorders ms ++ preorders ns := by
  induction ms <;> simp_all

theorem preorder_eq (n : Node) : n.preorder = n :: preorders n.children := by
  cases n <;> simp [preorder, children]

/-- The number of nodes. -/
def size (n : Node) : Nat :=
  n.preorder.length

theorem size_eq (n : Node) : n.size = 1 + (preorders n.children).length := by
  rw [size, preorder_eq]; simp; omega

end Node

end RubyInlay
