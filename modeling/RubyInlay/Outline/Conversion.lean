import RubyInlay.Outline.Basic
import RubyInlay.Source.Binding
import RubyInlay.Source.Scope
import RubyInlay.Text.Uppercase

/-! The outline of a concrete tree. The walk goes down one path at a time and keeps the nodes on it
as a list, so no tree is too deep for it. A node opens its scope and introduces its names when it is
entered. What a key refers to is settled when its entry is left, so names from inside the entry count
too. Leaving a node that has opened a scope brings back the scope around it. -/

namespace RubyInlay

open Source

variable (source : Bytes)

/-! ### Names -/

/-- The text of a key without the colons at its end, and then without the blanks at both. -/
def keyName (key : Tree) : List Char :=
  Text.trim Text.isBlank (Text.dropEndWhile (· == ':') (key.chars source))

/-- A constant begins with a capital and ends like no method. -/
def isConstantName (name : List Char) : Bool :=
  name.head?.any Text.isUppercase && !name.getLast?.any fun c => c == '?' || c == '!'

/-- What a name refers to where only the given variables are visible. -/
def Referent.ofName (scope : Scope) (name : List Char) : Referent :=
  if isConstantName name then .constant (String.ofList name)
  else if String.ofList name ∈ scope then .localVariable (String.ofList name)
  else .methodCall (String.ofList name)

/-- The key of an entry whose value is left out. -/
def shorthandKey? (t : Tree) : Option Tree :=
  if t.kind = "pair" ∧ t.child? .value = none then t.child? .key else none

def entryValue (scope : Scope) (key : Tree) : Node :=
  .omittedValue key.span ⟨.ofName scope (keyName source key), key.span⟩

/-- The exceptions that a clause names, in its first list of them. -/
def listedExceptions (t : Tree) : List String :=
  match t.namedChildren.find? (·.kind == "exceptions") with
  | some list => list.namedChildren.map (·.text source)
  | none => []

/-! ### Entering and leaving -/

/-- The scope in force among the children of a node that is entered in `scope`. -/
def scopeWithin (scope : Scope) (t : Tree) : Scope :=
  let opened := match Opening.ofKind? t.kind with
    | some opening => scope.enter opening
    | none => scope
  opened.add (introduced source t)

/-- The outline of a node that is left in `scope`, over the outlines of its named children. -/
def assemble (scope : Scope) (t : Tree) (children : List Node) : Node :=
  if t.kind = "rescue" then .rescueClause (listedExceptions source t) t.span children
  else
    .plain t.kind t.span
      (children ++ (shorthandKey? t).toList.map (entryValue source scope))

/-- A node that has been entered and not left. -/
structure Unfinished where
  tree : Tree
  /-- The named children not entered yet. -/
  pending : List Tree
  /-- The outlines of those that have been left, the latest first. -/
  built : List Node
  /-- The scope around the node, if it has opened one. -/
  saved : Option Scope

/-- The steps an unfinished node is good for: an entry and an exit for each node still to come, and
its own exit. -/
def Unfinished.work (u : Unfinished) : Nat :=
  2 * Tree.sizes u.pending + 1

def pathWork : List Unfinished → Nat
  | [] => 0
  | u :: us => u.work + pathWork us

/-- The walk at rest: the scope in force, and the unfinished nodes of a path, the innermost first. -/
structure Walk where
  scope : Scope
  top : Unfinished
  above : List Unfinished

namespace Walk

/-- The walk as it enters a node below those of a path. -/
def descend (scope : Scope) (t : Tree) (above : List Unfinished) : Walk where
  scope := scopeWithin source scope t
  top := ⟨t, t.namedChildren, [], (Opening.ofKind? t.kind).map fun _ => scope⟩
  above := above

def start (root : Tree) : Walk :=
  descend source .empty root []

/-- The outline of the innermost node. -/
def finished (w : Walk) : Node :=
  assemble source w.scope w.top.tree w.top.built.reverse

/-- The scope in force once the innermost node is left. -/
def scopeAround (w : Walk) : Scope :=
  w.top.saved.getD w.scope

/-- Enters the next child, or leaves the innermost node. Leaving the root ends the walk. -/
def step (w : Walk) : Node ⊕ Walk :=
  match w.top.pending with
  | child :: rest =>
    .inr (descend source w.scope child ({ w.top with pending := rest } :: w.above))
  | [] =>
    match w.above with
    | [] => .inl (w.finished source)
    | u :: above =>
      .inr ⟨w.scopeAround, { u with built := w.finished source :: u.built }, above⟩

/-! ### Termination -/

def work (w : Walk) : Nat :=
  pathWork (w.top :: w.above)

theorem work_step {w w' : Walk} (h : w.step source = .inr w') : w'.work < w.work := by
  unfold step at h
  split at h
  · rename_i child rest hp
    cases h
    have := child.sizes_namedChildren_lt
    simp [work, pathWork, Unfinished.work, descend, hp]
    omega
  · rename_i hp
    split at h
    · cases h
    · rename_i u above ha
      cases h
      simp [work, pathWork, Unfinished.work, hp, ha]

def run (w : Walk) : Node :=
  match h : w.step source with
  | .inl node => node
  | .inr w' =>
    have := work_step source h
    run w'
termination_by w.work
decreasing_by exact this

end Walk

/-- The outline of a tree over its source. -/
def Node.ofTree (root : Tree) : Node :=
  (Walk.start source root).run source

end RubyInlay
