import Mathlib.Data.List.Infix
import Mathlib.Data.List.Lex
import RubyInlay.Source.Tree

/-! Places in a tree. A walk enters the root and then, again and again, a named child of a node that
it has entered, so the numbers of the children on the way say where a node stands. Places in the
order of words are the nodes in the order of their entries. -/

namespace RubyInlay

/-- The way down to a node: the number of a child for each step. -/
abbrev Place := List Nat

namespace Place

variable {d p : Place} {i j : Nat}

/-- The node at `d` is entered before the node at `p` is left: it comes first in document order, or
it lies inside. -/
def EnteredBy (d p : Place) : Prop :=
  d < p ∨ p <+: d

instance (d p : Place) : Decidable (d.EnteredBy p) :=
  inferInstanceAs (Decidable (_ ∨ _))

@[simp] theorem enteredBy_nil (d : Place) : EnteredBy d [] := .inr List.nil_prefix

@[simp] theorem nil_enteredBy_cons : EnteredBy [] (i :: p) := .inl (List.nil_lt_cons _ _)

theorem cons_enteredBy_cons :
    EnteredBy (j :: d) (i :: p) ↔ j < i ∨ j = i ∧ EnteredBy d p := by
  simp only [EnteredBy, List.cons_lt_cons_iff, List.cons_prefix_cons]
  constructor
  · rintro ((h | ⟨rfl, h⟩) | ⟨rfl, h⟩)
    · exact .inl h
    · exact .inr ⟨rfl, .inl h⟩
    · exact .inr ⟨rfl, .inr h⟩
  · rintro (h | ⟨rfl, h | h⟩)
    · exact .inl (.inl h)
    · exact .inl (.inr ⟨rfl, h⟩)
    · exact .inr ⟨rfl, h⟩

/-! ### Places below a place -/

/-- Before a place at or below `p` come the places before `p` and some of those from `p` on. -/
theorem lt_append_iff {q : Place} : d < p ++ q ↔ d < p ∨ ∃ r, d = p ++ r ∧ r < q := by
  induction p generalizing d with
  | nil => simp
  | cons i p ih =>
    cases d with
    | nil => simp
    | cons j d =>
      simp only [List.cons_append, List.cons_lt_cons_iff, ih, List.cons.injEq]
      constructor
      · rintro (h | ⟨rfl, h | ⟨r, rfl, h⟩⟩)
        · exact .inl (.inl h)
        · exact .inl (.inr ⟨rfl, h⟩)
        · exact .inr ⟨r, ⟨rfl, rfl⟩, h⟩
      · rintro ((h | h) | ⟨r, ⟨rfl, rfl⟩, h⟩)
        · exact .inl h
        · exact .inr ⟨h.1, .inl h.2⟩
        · exact .inr ⟨rfl, .inr ⟨r, rfl, h⟩⟩

theorem not_append_lt (p r : Place) : ¬ p ++ r < p := by
  induction p with
  | nil => exact List.not_lt_nil r
  | cons i p ih => simpa [List.cons_lt_cons_iff] using ih

theorem lt_singleton_zero : d < [0] ↔ d = [] := by
  cases d <;> simp [List.cons_lt_cons_iff]

theorem lt_singleton_succ : d < [i + 1] ↔ d < [i] ∨ [i] <+: d := by
  cases d with
  | nil => simp
  | cons j d => simp [List.cons_lt_cons_iff, List.cons_prefix_cons]; omega

theorem lt_concat_zero : d < p ++ [0] ↔ d < p ∨ d = p := by
  simp [lt_append_iff, lt_singleton_zero]

/-- A sibling comes behind a node and all that lies inside it. -/
theorem lt_concat_succ : d < p ++ [i + 1] ↔ d < p ++ [i] ∨ p ++ [i] <+: d := by
  simp only [lt_append_iff, lt_singleton_succ]
  constructor
  · rintro (h | ⟨r, rfl, h | h⟩)
    · exact .inl (.inl h)
    · exact .inl (.inr ⟨r, rfl, h⟩)
    · exact .inr ((List.prefix_append_right_inj p).2 h)
  · rintro ((h | ⟨r, rfl, h⟩) | ⟨r, rfl⟩)
    · exact .inl h
    · exact .inr ⟨r, rfl, .inl h⟩
    · exact .inr ⟨i :: r, by simp, .inr (by simp)⟩

end Place

namespace Source.Tree

variable {t u : Tree} {i : Nat} {p : Place}

/-- The visited node at a place, if there is one. -/
def nodeAt? : Tree → Place → Option Tree
  | t, [] => some t
  | t, i :: p => (t.namedChildren[i]?).bind (nodeAt? · p)

@[simp] theorem nodeAt?_nil (t : Tree) : t.nodeAt? [] = some t := rfl

theorem nodeAt?_cons_eq_some :
    t.nodeAt? (i :: p) = some u ↔ ∃ c, t.namedChildren[i]? = some c ∧ c.nodeAt? p = some u := by
  simp [nodeAt?, Option.bind_eq_some_iff]

theorem nodeAt?_append (t : Tree) (p q : Place) :
    t.nodeAt? (p ++ q) = (t.nodeAt? p).bind (nodeAt? · q) := by
  induction p generalizing t with
  | nil => rfl
  | cons i p ih =>
    rw [List.cons_append, nodeAt?, nodeAt?]
    cases t.namedChildren[i]? with
    | none => rfl
    | some c => exact ih c

theorem nodeAt?_concat (h : t.nodeAt? p = some u) (i : Nat) :
    t.nodeAt? (p ++ [i]) = u.namedChildren[i]? := by
  rw [nodeAt?_append, h]
  simp [nodeAt?]

/-- What holds of a node when it holds of its named children holds of all trees. -/
@[elab_as_elim] theorem named_induction {motive : Tree → Prop}
    (node : ∀ t, (∀ c ∈ t.namedChildren, motive c) → motive t) (t : Tree) : motive t :=
  node t fun c hc =>
    have := size_lt_of_mem (mem_of_mem_namedChildren hc)
    named_induction node c
termination_by t.size
decreasing_by exact this

/-- The nodes that a walk visits, in document order. -/
def visited (t : Tree) : List Tree :=
  t :: t.namedChildren.attach.flatMap fun ⟨c, hc⟩ =>
    have := size_lt_of_mem (mem_of_mem_namedChildren hc)
    visited c
termination_by t.size
decreasing_by exact this

theorem visited_eq (t : Tree) : t.visited = t :: t.namedChildren.flatMap visited := by
  rw [visited]
  simp [List.flatMap_def]

/-- A named node on the first line of a source. -/
def onFirstLine (kind : String) (field : Option Field) (start stop : Nat) (children : List Tree) :
    Tree :=
  node ⟨kind, true, field, start, stop, ⟨0, start⟩, ⟨0, stop⟩⟩ children

end Source.Tree

end RubyInlay
