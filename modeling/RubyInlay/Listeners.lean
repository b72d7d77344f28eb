import RubyInlay.Outline.Basic

/-! Listeners on an outline. Each listens for one class of nodes. A tour visits all nodes once, in
document order, and each node calls the listeners for its class in the order in which they were
added. -/

namespace RubyInlay

namespace Node

/-- Goes through a list of subtrees, the first of them next. -/
def visitFrom (seen : Array Node) (ahead : List Node) : Array Node :=
  match ahead with
  | [] => seen
  | n :: ns => visitFrom (seen.push n) (n.children ++ ns)
termination_by (preorders ahead).length
decreasing_by simp [preorder_eq n]

/-- The nodes in the order of their visits. -/
def visits (n : Node) : List Node :=
  (visitFrom #[] [n]).toList

end Node

/-- The listeners in the order in which they were added, each with the class it listens for. -/
structure Listeners (α : Type) where
  entries : List (NodeClass × α)

/-- What happens on a tour: the calls, and how many nodes are visited. -/
structure Tour (α : Type) where
  calls : List (α × Node)
  visited : Nat

namespace Listeners

variable {α : Type}

def empty : Listeners α := ⟨[]⟩

def add (ls : Listeners α) (c : NodeClass) (listener : α) : Listeners α :=
  ⟨ls.entries ++ [(c, listener)]⟩

/-- The listeners for a class of nodes. -/
def ofClass (ls : Listeners α) (c : NodeClass) : List α :=
  (ls.entries.filter (·.1 == c)).map (·.2)

@[simp] theorem ofClass_empty (c : NodeClass) : (empty : Listeners α).ofClass c = [] := rfl

theorem ofClass_add (ls : Listeners α) (c c' : NodeClass) (listener : α) :
    (ls.add c listener).ofClass c' = ls.ofClass c' ++ if c = c' then [listener] else [] := by
  by_cases h : c = c' <;> simp [ofClass, add, List.filter_append, h]

/-- The calls of one node. -/
def callsAt (ls : Listeners α) (n : Node) : List (α × Node) :=
  (ls.ofClass n.nodeClass).map (·, n)

def tour (ls : Listeners α) (root : Node) : Tour α where
  calls := root.visits.flatMap ls.callsAt
  visited := root.visits.length

end Listeners

end RubyInlay
