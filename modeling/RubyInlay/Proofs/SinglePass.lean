import RubyInlay.Annotate
import RubyInlay.Proofs.Outline.Place
import RubyInlay.Proofs.Outline.Visits

/-! Hints in one pass. The hints of a document come from an outline, a tour of it and the calls of a
collector. Here they are found by one recursion over the tree, without an outline: a bare clause has
its hint when it is entered, a key without a value when its entry is left. Main statement: both ways
give the same hints in the same order, and the tour visits each visited node of the tree once and
two more for each key without a value. -/

namespace RubyInlay

open Source

variable (source : Bytes) (c : Collector)

/-! ### The pass -/

/-- The hint on entering a rescue clause whose first list of exceptions is missing or empty. -/
def entryHints (t : Tree) : List Hint :=
  if t.kind = "rescue" ∧ c.settings.shows .bareRescue ∧
      (t.namedChildren.find? (·.kind == "exceptions")).all (·.namedChildren.isEmpty) ∧
      t.span.ShownIn c.window then
    [⟨t.info.start.row, t.info.start.column + 6, "StandardError",
      "StandardError is implied in a bare rescue"⟩]
  else []

/-- The hint on leaving an entry without a value, where the variables of `scope` are visible. -/
def exitHints (scope : Scope) (t : Tree) : List Hint :=
  match shorthandKey? t with
  | some key =>
    let name := keyName source key
    if c.settings.shows .omittedValue ∧ key.span.ShownIn c.window then
      [⟨key.info.start.row, key.info.start.column + name.length + 1, String.ofList name,
        (Referent.ofName scope name).tooltip⟩]
    else []
  | none => []

mutual

/-- The hints of a tree that is entered in `scope`, and the scope when it has been left. -/
def pass (scope : Scope) (t : Tree) : List Hint × Scope :=
  let below := passAll (scopeWithin source scope t) t.namedChildren
  (entryHints c t ++ below.1 ++ exitHints source c below.2 t,
    if (Opening.ofKind? t.kind).isSome then scope else below.2)
termination_by 2 * t.size
decreasing_by have := t.sizes_namedChildren_lt; omega

def passAll (scope : Scope) (ts : List Tree) : List Hint × Scope :=
  match ts with
  | [] => ([], scope)
  | t :: ts =>
    let first := pass scope t
    let rest := passAll first.2 ts
    (first.1 ++ rest.1, rest.2)
termination_by 2 * Tree.sizes ts + 1
decreasing_by
  all_goals
    have := t.size_pos
    rw [Tree.sizes_cons]
    omega

end

/-! ### Hints of an outline -/

variable {source}

theorem listedExceptions_eq_nil_iff {t : Tree} : listedExceptions source t = [] ↔
    (t.namedChildren.find? (·.kind == "exceptions")).all (·.namedChildren.isEmpty) := by
  unfold listedExceptions
  cases t.namedChildren.find? (·.kind == "exceptions") <;> simp

theorem hint?_rescueClause (exceptions : List String) (span : Span) (ns : List Node) :
    c.hint? (.rescueClause exceptions span ns) =
      if c.settings.shows .bareRescue ∧ exceptions = [] ∧ span.ShownIn c.window then
        some (rescueHint span)
      else none := rfl

/-- A node of an outline has the hint on entering its tree. -/
theorem toList_hint?_assemble (scope : Scope) (t : Tree) (ns : List Node) :
    (c.hint? (assemble source scope t ns)).toList = entryHints c t := by
  unfold assemble entryHints
  by_cases hr : t.kind = "rescue"
  · have hl : (rescueKeyword.length : Int) = 6 := rfl
    rw [if_pos hr, hint?_rescueClause]
    simp only [listedExceptions_eq_nil_iff]
    split_ifs with h h' h'
    · simp [rescueHint, Tree.span, hl]
    · exact absurd ⟨hr, h⟩ h'
    · exact absurd h'.2 h
    · rfl
  · rw [if_neg hr, if_neg fun h => hr h.1]
    rfl

theorem label_ofName (scope : Scope) (name : List Char) :
    (Referent.ofName scope name).label = String.ofList name := by
  unfold Referent.ofName
  split_ifs <;> rfl

/-- What is added behind the children of a node has the hint on leaving its tree. -/
theorem filterMap_hint?_entryValues (scope : Scope) (t : Tree) :
    (Node.preorders ((shorthandKey? t).toList.map (entryValue source scope))).filterMap c.hint? =
      exitHints source c scope t := by
  unfold exitHints
  cases shorthandKey? t with
  | none => simp
  | some key =>
    simp only [Option.toList_some, List.map_cons, List.map_nil, Node.preorders_cons,
      Node.preorders_nil, List.append_nil, entryValue, Node.preorder, List.filterMap_cons,
      List.filterMap_nil, Collector.hint?]
    split_ifs with h
    · simp [valueHint, label_ofName, Tree.span]
    · rfl

theorem passAll_eq {ts : List Tree}
    (hts : ∀ t ∈ ts, ∀ scope, pass source c scope t =
      ((outline source scope t).preorder.filterMap c.hint?, scope.add (leaked source t)))
    (scope : Scope) : passAll source c scope ts =
      ((Node.preorders (outlines source scope ts)).filterMap c.hint?,
        scope.add (leakedAll source ts)) := by
  induction ts generalizing scope with
  | nil => rw [passAll]; simp
  | cons t ts ih =>
    have hrest := ih (fun t ht => hts t (List.mem_cons_of_mem _ ht)) (scope.add (leaked source t))
    rw [passAll, hts t List.mem_cons_self, hrest]
    simp

theorem filterMap_cons_eq_append {α β : Type} (f : α → Option β) (x : α) (xs : List α) :
    (x :: xs).filterMap f = (f x).toList ++ xs.filterMap f := by
  rw [List.filterMap_cons]
  cases f x <;> rfl

/-- A choice of some results that are then read, made on the list of all results. -/
theorem filterMap_eq_map_filter {α β γ : Type} {f : α → Option γ} {g : α → Option β}
    {p : β → Prop} [DecidablePred p] {read : β → γ}
    (h : ∀ x, f x = (g x).bind fun y => if p y then some (read y) else none) (xs : List α) :
    xs.filterMap f = ((xs.filterMap g).filter p).map read := by
  rw [funext h, ← List.filterMap_filterMap, ← List.filterMap_eq_map, List.filterMap_filter]
  simp

theorem pass_eq (scope : Scope) (t : Tree) : pass source c scope t =
    ((outline source scope t).preorder.filterMap c.hint?, scope.add (leaked source t)) := by
  induction t using Tree.named_induction generalizing scope with
  | node t ih =>
    have hpre : (outline source scope t).preorder.filterMap c.hint? = entryHints c t ++
        (Node.preorders (outlines source (scopeWithin source scope t)
          t.namedChildren)).filterMap c.hint? ++
        exitHints source c (scopeLeft source scope t) t := by
      rw [outline, Node.preorder_eq, children_assemble, Node.preorders_append,
        filterMap_cons_eq_append, List.filterMap_append, filterMap_hint?_entryValues,
        toList_hint?_assemble, List.append_assoc]
    have hleft : (if (Opening.ofKind? t.kind).isSome then scope else scopeLeft source scope t) =
        scope.add (leaked source t) := by
      cases h : Opening.ofKind? t.kind with
      | some o => simp [leaked_of_opening h]
      | none => simp [scopeLeft, scopeWithin, h, leaked_of_not_opening h]
    rw [pass, passAll_eq c ih, hpre, ← hleft]
    rfl

/-! ### The tour -/

theorem length_preorders_outlines {ts : List Tree}
    (hts : ∀ t ∈ ts, ∀ scope, (outline source scope t).preorder.length =
      t.visited.length + 2 * t.visited.countP fun u => (shorthandKey? u).isSome)
    (scope : Scope) : (Node.preorders (outlines source scope ts)).length =
      (ts.flatMap Tree.visited).length +
        2 * (ts.flatMap Tree.visited).countP fun u => (shorthandKey? u).isSome := by
  induction ts generalizing scope with
  | nil => simp
  | cons t ts ih =>
    have hfirst := hts t List.mem_cons_self scope
    have hrest := ih (fun t ht => hts t (List.mem_cons_of_mem _ ht)) (scope.add (leaked source t))
    rw [outlines_cons, Node.preorders_cons, List.flatMap_cons, List.length_append,
      List.length_append, List.countP_append, hfirst, hrest]
    omega

/-- The outline has a node for each visited one and two more for each key without a value. -/
theorem length_preorder_outline (scope : Scope) (t : Tree) :
    (outline source scope t).preorder.length =
      t.visited.length + 2 * t.visited.countP fun u => (shorthandKey? u).isSome := by
  induction t using Tree.named_induction generalizing scope with
  | node t ih =>
    have hbelow := length_preorders_outlines ih (scopeWithin source scope t)
    rw [outline, Node.preorder_eq, children_assemble, Node.preorders_append, List.length_cons,
      List.length_append, hbelow, Tree.visited_eq, List.length_cons, List.countP_cons]
    cases shorthandKey? t with
    | none => simp; omega
    | some key => simp [entryValue, Node.preorder]; omega

theorem callsAt_addCollector (n : Node) : (Listeners.empty.addCollector c).callsAt n =
    if n.nodeClass ∈ Collector.classes then [(c, n)] else [] := by
  simp only [Listeners.callsAt, Listeners.addCollector, Collector.classes, List.foldl_cons,
    List.foldl_nil, Listeners.ofClass_add, Listeners.ofClass_empty]
  cases n.nodeClass <;> simp

theorem hint?_eq_none_of_class {n : Node} (h : n.nodeClass ∉ Collector.classes) :
    c.hint? n = none := by
  cases n with
  | plain | expression => rfl
  | rescueClause | omittedValue => simp [Node.nodeClass, Collector.classes] at h

/-- A collector that listens alone is called for all nodes that can have a hint, in order. -/
theorem filterMap_hint?_tour (n : Node) :
    ((Listeners.empty.addCollector c).tour n).calls.filterMap (fun (l, m) => l.hint? m) =
      n.preorder.filterMap c.hint? := by
  rw [Listeners.tour, Node.visits_eq_preorder]
  induction n.preorder with
  | nil => rfl
  | cons m ms ih =>
    rw [List.flatMap_cons, List.filterMap_append, ih, filterMap_cons_eq_append,
      callsAt_addCollector]
    split_ifs with h
    · cases hm : c.hint? m <;> simp [hm]
    · simp [hint?_eq_none_of_class c h]

/-- The hints of a document are those of the nodes of its outline, in document order. -/
theorem annotate_eq (d : Document) :
    annotate d c =
      let hints := d.outline.1.preorder.filterMap c.hint?
      ⟨hints, d.outline.2 ++ [.visited d.outline.1.size, .collected hints.length c.window]⟩ := by
  simp only [annotate, filterMap_hint?_tour, Listeners.tour, Node.visits_eq_preorder, Node.size]

/-- The hints and the log of a document are those of the pass. -/
theorem annotate_eq_pass (d : Document) :
    annotate d c =
      let hints := (pass (.ofString d.source) c .empty d.root).1
      let nodes := d.root.visited
      ⟨hints, (if d.malformed then [.malformedSource] else []) ++
        [.visited (nodes.length + 2 * nodes.countP fun t => (shorthandKey? t).isSome),
          .collected hints.length c.window]⟩ := by
  simp only [annotate, Document.outline, filterMap_hint?_tour, Listeners.tour,
    Node.visits_eq_preorder, Node.ofTree_eq_outline, length_preorder_outline, pass_eq]

end RubyInlay
