import RubyInlay.Span
import RubyInlay.Text.Utf8

/-! The concrete tree of a source: nodes of a kind, with a place in the text, each under at most one
field of its parent. Children that are not named hold keywords and punctuation. -/

namespace RubyInlay.Source

/-- The part a node plays in its parent. -/
inductive Field where
  | key | value | left | pattern | operator | name
  deriving DecidableEq, Repr

/-- A place in the text: row and byte column, both from 0. -/
structure Point where
  row : Nat
  column : Nat
  deriving DecidableEq, Inhabited, Repr

/-- What a node says of itself. -/
structure Info where
  kind : String
  named : Bool
  field : Option Field
  startByte : Nat
  stopByte : Nat
  start : Point
  stop : Point
  deriving DecidableEq, Inhabited, Repr

inductive Tree where
  | node (info : Info) (children : List Tree)
  deriving Inhabited

namespace Tree

def info : Tree → Info
  | node info _ => info

def children : Tree → List Tree
  | node _ children => children

@[simp] theorem info_node (i : Info) (ts : List Tree) : (node i ts).info = i := rfl

@[simp] theorem children_node (i : Info) (ts : List Tree) : (node i ts).children = ts := rfl

theorem node_eta (t : Tree) : node t.info t.children = t := by cases t; rfl

abbrev kind (t : Tree) : String := t.info.kind

def namedChildren (t : Tree) : List Tree :=
  t.children.filter (·.info.named)

/-- The child under a field, named or not. -/
def child? (t : Tree) (f : Field) : Option Tree :=
  t.children.find? (·.info.field == some f)

theorem mem_of_mem_namedChildren {t c : Tree} (h : c ∈ t.namedChildren) : c ∈ t.children :=
  (List.mem_filter.1 h).1

theorem mem_of_child? {t c : Tree} {f : Field} (h : t.child? f = some c) : c ∈ t.children :=
  List.mem_of_find?_eq_some h

def span (t : Tree) : Span :=
  ⟨t.info.start.row + 1, t.info.start.column, t.info.stop.row + 1, t.info.stop.column⟩

/-! ### Size -/

mutual

/-- The number of nodes. -/
def size : Tree → Nat
  | node _ children => 1 + sizes children

def sizes : List Tree → Nat
  | [] => 0
  | t :: ts => size t + sizes ts

end

@[simp] theorem size_node (i : Info) (ts : List Tree) : (node i ts).size = 1 + sizes ts := by
  simp [size]

@[simp] theorem sizes_nil : sizes [] = 0 := by simp [sizes]

@[simp] theorem sizes_cons (t : Tree) (ts : List Tree) : sizes (t :: ts) = t.size + sizes ts := by
  simp [sizes]

theorem size_eq (t : Tree) : t.size = 1 + sizes t.children := by
  cases t; simp

theorem size_pos (t : Tree) : 0 < t.size := by
  have := t.size_eq; omega

theorem size_le_sizes {t : Tree} {ts : List Tree} (h : t ∈ ts) : t.size ≤ sizes ts := by
  induction ts with
  | nil => simp at h
  | cons u us ih =>
    rcases List.mem_cons.1 h with rfl | h
    · simp
    · have := ih h; simp; omega

theorem size_lt_of_mem {t c : Tree} (h : c ∈ t.children) : c.size < t.size := by
  have := size_le_sizes h; have := t.size_eq; omega

theorem sizes_filter_le (p : Tree → Bool) (ts : List Tree) : sizes (ts.filter p) ≤ sizes ts := by
  induction ts with
  | nil => simp
  | cons t ts ih =>
    rw [List.filter_cons]
    split <;> simp <;> omega

theorem sizes_namedChildren_lt (t : Tree) : sizes t.namedChildren < t.size := by
  have := sizes_filter_le (·.info.named) t.children
  have := t.size_eq
  unfold namedChildren
  omega

end Tree

/-! ### Text -/

/-- The bytes that the offsets of a tree count. -/
abbrev Bytes := Array UInt8

def Bytes.ofString (s : String) : Bytes :=
  (Text.Utf8.encode s.toList).toArray

/-- The text between two offsets; what lies past the end is not there. -/
def Bytes.text (source : Bytes) (start stop : Nat) : List Char :=
  Text.Utf8.decode (source.extract start stop).toList

def Tree.chars (source : Bytes) (t : Tree) : List Char :=
  source.text t.info.startByte t.info.stopByte

def Tree.text (source : Bytes) (t : Tree) : String :=
  String.ofList (t.chars source)

end RubyInlay.Source
