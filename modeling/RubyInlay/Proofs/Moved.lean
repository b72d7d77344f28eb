import RubyInlay.Proofs.SinglePass
import RubyInlay.Proofs.Source.Moved

/-! Moved documents. A text in front of a document moves the tree by rows and bytes, and a window
moves by rows. Bytes are only read as offsets into the text and rows only as lines, so the two may
be moved by numbers that have nothing to do with each other. Main statement: the hints of a moved
document in a moved window are those of the document in the window, as many lines further down. -/

namespace RubyInlay

open Source

variable {rows : Nat} {front source : String}

/-! ### Lines -/

def Span.moved (rows : Nat) (s : Span) : Span :=
  { s with startLine := s.startLine + rows, endLine := s.endLine + rows }

def Window.moved (rows : Nat) (w : Window) : Window :=
  { w with startLine := w.startLine + rows, endLine := w.endLine + rows }

def Hint.moved (rows : Nat) (h : Hint) : Hint :=
  { h with line := h.line + rows }

/-- The collector whose window, if it has one, is some rows further down. -/
def Collector.moved (rows : Nat) (c : Collector) : Collector :=
  { c with window := c.window.map (Window.moved rows) }

theorem shownIn_moved (rows : Nat) (s : Span) (window : Option Window) :
    (s.moved rows).ShownIn (window.map (Window.moved rows)) ↔ s.ShownIn window := by
  cases window with
  | none => simp
  | some w =>
    simp only [Option.map_some, Span.shownIn_some, Window.HasLine, Window.moved, Span.moved]
    omega

theorem span_moved {bytes : Nat} (t : Tree) : (t.moved rows bytes).span = t.span.moved rows := by
  simp only [Tree.span, Tree.info_moved, Info.moved, Point.moved, Span.moved, Span.mk.injEq,
    true_and, and_true]
  omega

/-! ### Nodes -/

theorem shorthandKey?_moved {bytes : Nat} (t : Tree) :
    shorthandKey? (t.moved rows bytes) = (shorthandKey? t).map (Tree.moved rows bytes) := by
  simp only [shorthandKey?, Tree.kind_moved, Tree.child?_moved, Option.map_eq_none_iff]
  split_ifs <;> rfl

theorem keyName_moved (key : Tree) :
    keyName (.ofString (front ++ source)) (key.moved rows front.utf8ByteSize) =
      keyName (.ofString source) key := by
  simp [keyName]

theorem scopeWithin_moved (scope : Scope) (t : Tree) :
    scopeWithin (.ofString (front ++ source)) scope (t.moved rows front.utf8ByteSize) =
      scopeWithin (.ofString source) scope t := by
  simp only [scopeWithin, Tree.kind_moved, introduced_moved]

theorem entryHints_moved {bytes : Nat} (c : Collector) (t : Tree) :
    entryHints (c.moved rows) (t.moved rows bytes) = (entryHints c t).map (Hint.moved rows) := by
  have hlist : ((t.moved rows bytes).namedChildren.find? (·.kind == "exceptions")).all
      (·.namedChildren.isEmpty) =
        (t.namedChildren.find? (·.kind == "exceptions")).all (·.namedChildren.isEmpty) := by
    simp only [Tree.namedChildren_moved, Tree.kind_moved, List.find?_map, Option.all_map,
      Function.comp_def, List.isEmpty_map]
  have hshown := shownIn_moved rows t.span c.window
  simp only [entryHints, Collector.moved, Tree.kind_moved, hlist, span_moved, hshown]
  split_ifs
  · simp [Hint.moved, Info.moved, Point.moved]
  · rfl

theorem exitHints_moved (c : Collector) (scope : Scope) (t : Tree) :
    exitHints (.ofString (front ++ source)) (c.moved rows) scope
        (t.moved rows front.utf8ByteSize) =
      (exitHints (.ofString source) c scope t).map (Hint.moved rows) := by
  rw [exitHints, exitHints, shorthandKey?_moved]
  cases shorthandKey? t with
  | none => rfl
  | some key =>
    have hshown := shownIn_moved rows key.span c.window
    simp only [Option.map_some, Collector.moved, keyName_moved, span_moved, hshown]
    split_ifs
    · simp [Hint.moved, Info.moved, Point.moved]
    · rfl

/-! ### Trees -/

theorem passAll_moved {c : Collector} {ts : List Tree}
    (hts : ∀ t ∈ ts, ∀ scope,
      pass (.ofString (front ++ source)) (c.moved rows) scope (t.moved rows front.utf8ByteSize) =
        (pass (.ofString source) c scope t).map (List.map (Hint.moved rows)) id)
    (scope : Scope) :
    passAll (.ofString (front ++ source)) (c.moved rows) scope
        (ts.map (Tree.moved rows front.utf8ByteSize)) =
      (passAll (.ofString source) c scope ts).map (List.map (Hint.moved rows)) id := by
  induction ts generalizing scope with
  | nil => rw [List.map_nil, passAll, passAll]; rfl
  | cons t ts ih =>
    have hrest := ih fun t ht => hts t (List.mem_cons_of_mem _ ht)
    rw [List.map_cons, passAll, passAll, hts t List.mem_cons_self]
    simp [hrest]

/-- The pass finds the hints of a moved tree where it finds those of the tree, and leaves it with
the same variables. -/
theorem pass_moved (c : Collector) (scope : Scope) (t : Tree) :
    pass (.ofString (front ++ source)) (c.moved rows) scope (t.moved rows front.utf8ByteSize) =
      (pass (.ofString source) c scope t).map (List.map (Hint.moved rows)) id := by
  induction t using Tree.named_induction generalizing scope with
  | node t ih =>
    have hbelow := passAll_moved ih (scopeWithin (.ofString source) scope t)
    rw [pass, pass, Tree.namedChildren_moved, scopeWithin_moved, hbelow]
    simp [entryHints_moved, exitHints_moved]

/-! ### Documents -/

/-- The document with a text in front of it, whose tree stands some rows further down. -/
def Document.moved (rows : Nat) (front : String) (d : Document) : Document :=
  { d with
    source := front ++ d.source
    root := d.root.moved rows front.utf8ByteSize }

theorem hints_eq_pass (d : Document) (c : Collector) :
    (annotate d c).hints = (pass (.ofString d.source) c .empty d.root).1 := by
  rw [annotate_eq, pass_eq, Document.outline, Node.ofTree_eq_outline]

/-- A moved document has its hints as many lines further down, in the same order, each with the same
character, label and tooltip. -/
theorem hints_moved (d : Document) (c : Collector) (rows : Nat) (front : String) :
    (annotate (d.moved rows front) (c.moved rows)).hints =
      (annotate d c).hints.map (Hint.moved rows) := by
  rw [hints_eq_pass, hints_eq_pass, Document.moved, pass_moved]
  rfl

/-! The name of a key is read behind the two bytes of the letter in front, and its hint is at the
column at which it was. -/

example :
    let key : Tree := .onFirstLine "hash_key_symbol" (some .key) 1 2 []
    let entry : Document := ⟨"{b:}", .onFirstLine "pair" none 1 3 [key], false⟩
    (annotate (entry.moved 5 "é") ⟨none, ⟨[("enableAll", .bool true)]⟩⟩).hints.map
      (fun h => (h.line, h.character, h.label)) = [(5, 3, "b")] := by
  decide +kernel

end RubyInlay
