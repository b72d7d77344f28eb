import Mathlib.Tactic.SplitIfs
import RubyInlay.Proofs.Outline.Recursion

/-! Places in an outline. The outline of a node stands in the outline of the whole tree where the
node stands in the tree: what an entry adds comes behind its children. -/

namespace RubyInlay

open Source

namespace Node

variable {n m : Node} {i : Nat} {p : Place}

/-- The node at a place of an outline. -/
def nodeAt? : Node → Place → Option Node
  | n, [] => some n
  | n, i :: p => (n.children[i]?).bind (nodeAt? · p)

@[simp] theorem nodeAt?_nil (n : Node) : n.nodeAt? [] = some n := rfl

theorem nodeAt?_cons (n : Node) (i : Nat) (p : Place) :
    n.nodeAt? (i :: p) = (n.children[i]?).bind (nodeAt? · p) := rfl

theorem nodeAt?_append (n : Node) (p q : Place) :
    n.nodeAt? (p ++ q) = (n.nodeAt? p).bind (nodeAt? · q) := by
  induction p generalizing n with
  | nil => rfl
  | cons i p ih =>
    rw [List.cons_append, nodeAt?_cons, nodeAt?_cons]
    cases n.children[i]? with
    | none => rfl
    | some m => exact ih m

end Node

variable {source : Bytes}

theorem shorthandKey?_eq_some {t key : Tree} : shorthandKey? t = some key ↔
    t.kind = "pair" ∧ t.child? .value = none ∧ t.child? .key = some key := by
  unfold shorthandKey?
  split_ifs with h
  · simp [h.1, h.2]
  · simp only [false_iff]
    rintro ⟨hk, hv, -⟩
    exact h ⟨hk, hv⟩

theorem shorthandKey?_eq_none_of_kind {t : Tree} (h : t.kind ≠ "pair") :
    shorthandKey? t = none := by
  rw [shorthandKey?, if_neg fun hp => h hp.1]

/-- The value of an entry comes behind the children of its node. -/
theorem children_assemble (scope : Scope) (t : Tree) (ns : List Node) :
    (assemble source scope t ns).children =
      ns ++ (shorthandKey? t).toList.map (entryValue source scope) := by
  unfold assemble
  split
  · rename_i h
    rw [shorthandKey?_eq_none_of_kind (by rw [h]; decide)]
    simp [Node.children]
  · rfl

theorem getElem?_children_assemble {scope : Scope} {t : Tree} {ns : List Node} {n : Node} {i : Nat}
    (h : ns[i]? = some n) : (assemble source scope t ns).children[i]? = some n := by
  obtain ⟨hi, -⟩ := List.getElem?_eq_some_iff.1 h
  rw [children_assemble, List.getElem?_append_left hi, h]

theorem length_outlines (scope : Scope) (ts : List Tree) :
    (outlines source scope ts).length = ts.length := by
  induction ts generalizing scope with
  | nil => simp
  | cons t ts ih => simp [ih]

theorem getElem?_outlines (scope : Scope) (ts : List Tree) (i : Nat) :
    (outlines source scope ts)[i]? =
      ts[i]?.map (outline source (scope.add (leakedAll source (ts.take i)))) := by
  induction ts generalizing scope i with
  | nil => simp
  | cons t ts ih =>
    cases i with
    | zero => simp
    | succ i => simp [ih]

variable (source) in
/-- The scope that the node at a place is entered in, if the tree is entered in `scope`. -/
def scopeBefore (scope : Scope) : Tree → Place → Scope
  | _, [] => scope
  | t, i :: p =>
    match t.namedChildren[i]? with
    | some c =>
      let inner := (scopeWithin source scope t).add (leakedAll source (t.namedChildren.take i))
      scopeBefore inner c p
    | none => scope

@[simp] theorem scopeBefore_nil (scope : Scope) (t : Tree) :
    scopeBefore source scope t [] = scope := by
  simp [scopeBefore]

theorem scopeBefore_cons {scope : Scope} {t c : Tree} {i : Nat} {p : Place}
    (hc : t.namedChildren[i]? = some c) :
    scopeBefore source scope t (i :: p) =
      scopeBefore source
        ((scopeWithin source scope t).add (leakedAll source (t.namedChildren.take i))) c p := by
  rw [scopeBefore, hc]

theorem nodeAt?_outline {scope : Scope} {t u : Tree} {p : Place} (h : t.nodeAt? p = some u) :
    (outline source scope t).nodeAt? p =
      some (outline source (scopeBefore source scope t p) u) := by
  induction p generalizing scope t with
  | nil => cases h; simp
  | cons i p ih =>
    obtain ⟨c, hc, hu⟩ := Tree.nodeAt?_cons_eq_some.1 h
    have hn : (outlines source (scopeWithin source scope t) t.namedChildren)[i]? = _ :=
      getElem?_outlines _ t.namedChildren i
    rw [hc, Option.map_some] at hn
    rw [outline, Node.nodeAt?_cons, getElem?_children_assemble hn, Option.bind_some, ih hu,
      scopeBefore_cons hc]

end RubyInlay
