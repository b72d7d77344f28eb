import Mathlib.Data.List.Basic
import RubyInlay.Proofs.SinglePass

/-! Hints in a window. Each hint belongs to a node of the tree, a bare clause or the key of an entry
without a value, and it is shown where the first and the last line of that node are. So a window
picks hints out of one list, which the source, the tree and the settings determine. Main statement:
of a window that is cut in two, either part shows some of the hints in the same order, and those in
neither part are those of the nodes that reach across the cut. -/

namespace RubyInlay

open Source

variable {source : Bytes} {settings : Settings} {whole first second : Window} {t : Tree}

/-! ### Carriers -/

/-- A clause whose first list of exceptions is missing or empty. -/
def isBareClause (t : Tree) : Bool :=
  t.kind == "rescue" &&
    (t.namedChildren.find? (·.kind == "exceptions")).all (·.namedChildren.isEmpty)

/-- The nodes that hints belong to, as far as the settings show hints of their kind: a bare clause
comes before the nodes in it, the key of an entry behind them. -/
def carriers (settings : Settings) (t : Tree) : List Tree :=
  (if settings.shows .bareRescue ∧ isBareClause t then [t] else []) ++
    (t.namedChildren.attach.flatMap fun ⟨c, hc⟩ =>
      have := Tree.size_lt_of_mem (Tree.mem_of_mem_namedChildren hc)
      carriers settings c) ++
    (if settings.shows .omittedValue then (shorthandKey? t).toList else [])
termination_by t.size
decreasing_by exact this

theorem carriers_eq (t : Tree) : carriers settings t =
    (if settings.shows .bareRescue ∧ isBareClause t then [t] else []) ++
      t.namedChildren.flatMap (carriers settings) ++
      (if settings.shows .omittedValue then (shorthandKey? t).toList else []) := by
  rw [carriers]
  simp [List.flatMap_def]

/-! ### Marks -/

/-- The hint of a node, whatever the window, with the span that decides where it is shown. -/
def mark? (settings : Settings) : Node → Option (Span × Hint)
  | .rescueClause exceptions span _ =>
    if settings.shows .bareRescue ∧ exceptions = [] then some (span, rescueHint span) else none
  | .omittedValue span value =>
    if settings.shows .omittedValue then some (span, valueHint span value) else none
  | _ => none

/-- The marks that a window shows. -/
def shownMarks (window : Option Window) (marks : List (Span × Hint)) : List (Span × Hint) :=
  marks.filter fun m => m.1.ShownIn window

theorem hint?_eq_mark? (c : Collector) (n : Node) :
    c.hint? n = (mark? c.settings n).bind fun m =>
      if m.1.ShownIn c.window then some m.2 else none := by
  cases n with
  | plain | expression => rfl
  | rescueClause exceptions span ns =>
    by_cases hs : c.settings.shows .bareRescue ∧ exceptions = []
    · by_cases hw : span.ShownIn c.window <;> simp [Collector.hint?, mark?, hs, hw]
    · have hno : ¬ (c.settings.shows .bareRescue ∧ exceptions = [] ∧ span.ShownIn c.window) :=
        fun h => hs ⟨h.1, h.2.1⟩
      rw [mark?, if_neg hs, Collector.hint?, if_neg hno]
      rfl
  | omittedValue span value =>
    by_cases hs : c.settings.shows .omittedValue <;> by_cases hw : span.ShownIn c.window <;>
      simp [Collector.hint?, mark?, hs, hw]

theorem filterMap_hint?_eq (c : Collector) (ns : List Node) :
    ns.filterMap c.hint? = (shownMarks c.window (ns.filterMap (mark? c.settings))).map (·.2) :=
  filterMap_eq_map_filter (hint?_eq_mark? c) ns

theorem line_of_mark? {n : Node} {m : Span × Hint} (h : mark? settings n = some m) :
    m.2.line = m.1.startLine - 1 := by
  cases n with
  | plain | expression => cases h
  | rescueClause =>
    simp only [mark?, Option.ite_none_right_eq_some, Option.some.injEq] at h
    rw [← h.2]
    rfl
  | omittedValue =>
    simp only [mark?, Option.ite_none_right_eq_some, Option.some.injEq] at h
    rw [← h.2]
    rfl

/-! ### Marks of an outline -/

/-- The span of a bare clause decides about the hint of its node. -/
theorem toList_mark?_assemble (scope : Scope) (t : Tree) (ns : List Node) :
    ((mark? settings (assemble source scope t ns)).toList).map (·.1) =
      (if settings.shows .bareRescue ∧ isBareClause t then [t] else []).map Tree.span := by
  by_cases hr : t.kind = "rescue"
  · have hbare : isBareClause t ↔ listedExceptions source t = [] := by
      rw [listedExceptions_eq_nil_iff]
      simp [isBareClause, hr]
    rw [assemble, if_pos hr, mark?]
    simp only [hbare]
    split_ifs <;> rfl
  · have hbare : isBareClause t = false := by simp [isBareClause, hr]
    rw [assemble, if_neg hr, hbare]
    simp [mark?]

/-- The span of a key decides about the hint of the value that is added. -/
theorem map_marks_entryValues (scope : Scope) (t : Tree) :
    ((Node.preorders ((shorthandKey? t).toList.map (entryValue source scope))).filterMap
        (mark? settings)).map (·.1) =
      (if settings.shows .omittedValue then (shorthandKey? t).toList else []).map Tree.span := by
  cases shorthandKey? t with
  | none => simp
  | some key =>
    by_cases hs : settings.shows .omittedValue <;> simp [entryValue, Node.preorder, mark?, hs]

theorem map_marks_outlines {ts : List Tree}
    (hts : ∀ t ∈ ts, ∀ scope, ((outline source scope t).preorder.filterMap (mark? settings)).map
      (·.1) = (carriers settings t).map Tree.span) (scope : Scope) :
    ((Node.preorders (outlines source scope ts)).filterMap (mark? settings)).map (·.1) =
      (ts.flatMap (carriers settings)).map Tree.span := by
  induction ts generalizing scope with
  | nil => simp
  | cons t ts ih =>
    have hrest := ih (fun u hu => hts u (List.mem_cons_of_mem _ hu)) (scope.add (leaked source t))
    rw [outlines_cons, Node.preorders_cons, List.filterMap_append, List.map_append,
      hts t List.mem_cons_self, hrest, List.flatMap_cons, List.map_append]

/-- The marks of an outline have the spans of the carriers, in the same order. -/
theorem map_marks_outline (scope : Scope) (t : Tree) :
    ((outline source scope t).preorder.filterMap (mark? settings)).map (·.1) =
      (carriers settings t).map Tree.span := by
  induction t using Tree.named_induction generalizing scope with
  | node t ih =>
    rw [outline, Node.preorder_eq, children_assemble, Node.preorders_append,
      filterMap_cons_eq_append, List.filterMap_append, List.map_append, List.map_append,
      toList_mark?_assemble,
      map_marks_outlines ih, map_marks_entryValues, carriers_eq, List.map_append, List.map_append,
      List.append_assoc]

/-! ### Windows -/

/-- Lines in a row, cut behind a line that is not the last. -/
structure Window.CutInto (whole first second : Window) : Prop where
  start : first.startLine = whole.startLine
  next : second.startLine = first.endLine + 1
  stop : second.endLine = whole.endLine
  firstLine : first.startLine ≤ first.endLine
  secondLine : second.startLine ≤ second.endLine

/-- One of the two end lines of a node is in one window and the other in the other. -/
def Source.Tree.Crosses (t : Tree) (first second : Window) : Prop :=
  first.HasLine t.info.start.row ∧ second.HasLine t.info.stop.row ∨
    first.HasLine t.info.stop.row ∧ second.HasLine t.info.start.row

instance (t : Tree) (first second : Window) : Decidable (t.Crosses first second) :=
  inferInstanceAs (Decidable (_ ∨ _))

theorem shownIn_iff_rows {w : Window} : t.span.ShownIn (some w) ↔
    w.HasLine t.info.start.row ∧ w.HasLine t.info.stop.row := by
  simp [Tree.span]

theorem shownIn_mono {w w' : Window} (h : ∀ line, w.HasLine line → w'.HasLine line) {s : Span}
    (hs : s.ShownIn (some w)) : s.ShownIn (some w') := by
  rw [Span.shownIn_some] at hs ⊢
  exact ⟨h _ hs.1, h _ hs.2⟩

namespace Window.CutInto

theorem hasLine_iff (h : whole.CutInto first second) (line : ℤ) :
    whole.HasLine line ↔ first.HasLine line ∨ second.HasLine line := by
  obtain ⟨hstart, hnext, hstop, hfirst, hsecond⟩ := h
  simp only [HasLine]
  omega

/-- No line is in both parts. -/
theorem not_hasLine_both (h : whole.CutInto first second) {line : ℤ} (hl : first.HasLine line) :
    ¬ second.HasLine line := by
  have hnext := h.next
  simp only [HasLine] at hl ⊢
  omega

theorem shownIn_of_first (h : whole.CutInto first second) {s : Span}
    (hs : s.ShownIn (some first)) : s.ShownIn (some whole) :=
  shownIn_mono (fun line hl => (h.hasLine_iff line).2 (.inl hl)) hs

theorem shownIn_of_second (h : whole.CutInto first second) {s : Span}
    (hs : s.ShownIn (some second)) : s.ShownIn (some whole) :=
  shownIn_mono (fun line hl => (h.hasLine_iff line).2 (.inr hl)) hs

/-- A node that reaches across the cut is shown in the whole window and in neither part. -/
theorem shownIn_of_crosses (h : whole.CutInto first second) (hc : t.Crosses first second) :
    t.span.ShownIn (some whole) ∧ ¬ t.span.ShownIn (some first) ∧
      ¬ t.span.ShownIn (some second) := by
  simp only [shownIn_iff_rows, h.hasLine_iff]
  rcases hc with ⟨hstart, hstop⟩ | ⟨hstop, hstart⟩
  · have hstop' : ¬ first.HasLine t.info.stop.row := fun hf => h.not_hasLine_both hf hstop
    exact ⟨⟨.inl hstart, .inr hstop⟩, fun hf => hstop' hf.2,
      fun hs => h.not_hasLine_both hstart hs.1⟩
  · have hstart' : ¬ first.HasLine t.info.start.row := fun hf => h.not_hasLine_both hf hstart
    exact ⟨⟨.inr hstart, .inl hstop⟩, fun hf => hstart' hf.1,
      fun hs => h.not_hasLine_both hstop hs.2⟩

/-- Of a whole window, a node is shown in one of the parts or reaches across the cut. -/
theorem shownIn_cases (h : whole.CutInto first second) (hw : t.span.ShownIn (some whole)) :
    t.span.ShownIn (some first) ∧ ¬ t.span.ShownIn (some second) ∧ ¬ t.Crosses first second ∨
      ¬ t.span.ShownIn (some first) ∧ t.span.ShownIn (some second) ∧ ¬ t.Crosses first second ∨
      t.Crosses first second := by
  by_cases hc : t.Crosses first second
  · exact .inr (.inr hc)
  · simp only [shownIn_iff_rows, h.hasLine_iff] at hw ⊢
    obtain ⟨hstart | hstart, hstop | hstop⟩ := hw
    · exact .inl ⟨⟨hstart, hstop⟩, fun hs => h.not_hasLine_both hstart hs.1, hc⟩
    · exact absurd (.inl ⟨hstart, hstop⟩) hc
    · exact absurd (.inr ⟨hstop, hstart⟩) hc
    · exact .inr (.inl ⟨fun hf => h.not_hasLine_both hf.1 hstart, ⟨hstart, hstop⟩, hc⟩)

/-- The nodes shown in the whole window, counted by the part that shows them. -/
theorem countP_shownIn (h : whole.CutInto first second) (ts : List Tree) :
    ts.countP (fun t => t.span.ShownIn (some whole)) =
      ts.countP (fun t => t.span.ShownIn (some first)) +
        ts.countP (fun t => t.span.ShownIn (some second)) +
        ts.countP (fun t => t.Crosses first second) := by
  induction ts with
  | nil => rfl
  | cons t ts ih =>
    simp only [List.countP_cons, decide_eq_true_eq, ih]
    by_cases hw : t.span.ShownIn (some whole)
    · rcases h.shownIn_cases hw with ⟨hf, hs, hc⟩ | ⟨hf, hs, hc⟩ | hc
      · simp only [if_pos hw, if_pos hf, if_neg hs, if_neg hc]; omega
      · simp only [if_pos hw, if_neg hf, if_pos hs, if_neg hc]; omega
      · have hnot := h.shownIn_of_crosses hc
        simp only [if_pos hw, if_neg hnot.2.1, if_neg hnot.2.2, if_pos hc]; omega
    · have hf : ¬ t.span.ShownIn (some first) := fun hf => hw (h.shownIn_of_first hf)
      have hs : ¬ t.span.ShownIn (some second) := fun hs => hw (h.shownIn_of_second hs)
      have hc : ¬ t.Crosses first second := fun hc => hw (h.shownIn_of_crosses hc).1
      simp only [if_neg hw, if_neg hf, if_neg hs, if_neg hc]; omega

end Window.CutInto

/-! ### Hints of a document -/

/-- The marks of a document. -/
def marks (settings : Settings) (d : Document) : List (Span × Hint) :=
  d.outline.1.preorder.filterMap (mark? settings)

theorem hints_eq_shownMarks (d : Document) (c : Collector) :
    (annotate d c).hints = (shownMarks c.window (marks c.settings d)).map (·.2) := by
  rw [annotate_eq]
  exact filterMap_hint?_eq c _

theorem map_marks (settings : Settings) (d : Document) :
    (marks settings d).map (·.1) = (carriers settings d.root).map Tree.span := by
  rw [marks, Document.outline, Node.ofTree_eq_outline]
  exact map_marks_outline .empty d.root

theorem shownMarks_none (ms : List (Span × Hint)) : shownMarks none ms = ms := by
  simp [shownMarks]

/-- The hints of a window are as many as the carriers that it shows. -/
theorem length_hints (d : Document) (c : Collector) :
    (annotate d c).hints.length =
      (carriers c.settings d.root).countP fun t => t.span.ShownIn c.window := by
  have hmap := congrArg (List.countP fun s : Span => s.ShownIn c.window) (map_marks c.settings d)
  rw [List.countP_map, List.countP_map] at hmap
  rw [hints_eq_shownMarks, List.length_map, shownMarks, ← List.countP_eq_length_filter]
  exact hmap

/-- Pairs of a list are picked out by their first parts, wherever these come from. -/
theorem filter_zip_map {α β γ : Type} (f : α → β) (p : β → Bool) {xs : List α}
    {ms : List (β × γ)} (h : ms.map (·.1) = xs.map f) :
    ((xs.zip (ms.map (·.2))).filter fun q => p (f q.1)).map (·.2) =
      (ms.filter fun m => p m.1).map (·.2) := by
  induction ms generalizing xs with
  | nil => simp
  | cons m ms ih =>
    cases xs with
    | nil => cases h
    | cons x xs =>
      obtain ⟨hm, hrest⟩ := List.cons.inj h
      simp only [List.map_cons, List.zip_cons_cons, List.filter_cons, hm]
      split_ifs <;> simp only [List.map_cons, ih hrest]

/-- A window picks the hints of the carriers that it shows out of all hints. -/
theorem hints_eq_filter_zip (d : Document) (c : Collector) :
    (annotate d c).hints =
      (((carriers c.settings d.root).zip (annotate d ⟨none, c.settings⟩).hints).filter
        fun p => p.1.span.ShownIn c.window).map (·.2) := by
  have hall : (annotate d ⟨none, c.settings⟩).hints = (marks c.settings d).map (·.2) := by
    rw [hints_eq_shownMarks, shownMarks_none]
  rw [hints_eq_shownMarks, hall]
  exact (filter_zip_map Tree.span (fun s => decide (s.ShownIn c.window))
    (map_marks c.settings d)).symm

/-- A window that shows more of the carriers has more hints, those of the other among them in their
order. -/
theorem hints_sublist_of_carriers (d : Document) {window window' : Option Window}
    (h : ∀ t ∈ carriers settings d.root, t.span.ShownIn window → t.span.ShownIn window') :
    (annotate d ⟨window, settings⟩).hints.Sublist (annotate d ⟨window', settings⟩).hints := by
  have hmarks : ∀ m ∈ marks settings d, m.1.ShownIn window → m.1.ShownIn window' := by
    intro m hm
    have hspan := List.mem_map_of_mem (f := (·.1)) hm
    rw [map_marks] at hspan
    obtain ⟨t, ht, hts⟩ := List.mem_map.1 hspan
    rw [← hts]
    exact h t ht
  have hfilter : shownMarks window (marks settings d) =
      shownMarks window (shownMarks window' (marks settings d)) := by
    simp only [shownMarks, List.filter_filter]
    exact List.filter_congr fun m hm => by simpa using hmarks m hm
  rw [hints_eq_shownMarks, hints_eq_shownMarks, hfilter]
  exact List.filter_sublist.map _

/-- A window that shows more has more hints, and those of the other among them in their order. -/
theorem hints_sublist (d : Document) {window window' : Option Window}
    (h : ∀ s : Span, s.ShownIn window → s.ShownIn window') :
    (annotate d ⟨window, settings⟩).hints.Sublist (annotate d ⟨window', settings⟩).hints :=
  hints_sublist_of_carriers d fun t _ => h t.span

/-- Windows that show the same carriers have the same hints. -/
theorem hints_congr (d : Document) {window window' : Option Window}
    (h : ∀ t ∈ carriers settings d.root, t.span.ShownIn window ↔ t.span.ShownIn window') :
    (annotate d ⟨window, settings⟩).hints = (annotate d ⟨window', settings⟩).hints :=
  (hints_sublist_of_carriers d fun t ht => (h t ht).1).antisymm
    (hints_sublist_of_carriers d fun t ht => (h t ht).2)

theorem hasLine_of_mem_hints (d : Document) {w : Window} {hint : Hint}
    (h : hint ∈ (annotate d ⟨some w, settings⟩).hints) : w.HasLine hint.line := by
  rw [hints_eq_shownMarks] at h
  obtain ⟨m, hm, rfl⟩ := List.mem_map.1 h
  obtain ⟨hmarks, hshown⟩ := List.mem_filter.1 hm
  obtain ⟨n, -, hn⟩ := List.mem_filterMap.1 hmarks
  have hs : m.1.ShownIn (some w) := by simpa using hshown
  rw [line_of_mark? hn]
  exact ((Span.shownIn_some m.1 w).1 hs).1

/-- The parts of a window show hints of the window in their order, the window some of all hints and
none outside its lines. The hints in neither part are those of the carriers that reach across the
cut: a window shows the hints of the carriers that it shows, and these it shows while its parts do
not. -/
theorem windows_split (d : Document) (settings : Settings) (whole first second : Window)
    (h : whole.CutInto first second) :
    let hints (window : Option Window) := (annotate d ⟨window, settings⟩).hints
    let nodes := carriers settings d.root
    (hints (some first)).Sublist (hints (some whole)) ∧
    (hints (some second)).Sublist (hints (some whole)) ∧
    (hints (some whole)).Sublist (hints none) ∧
    (∀ hint ∈ hints (some whole), whole.HasLine hint.line) ∧
    (hints (some whole)).length = (hints (some first)).length + (hints (some second)).length +
      nodes.countP (fun t => t.Crosses first second) ∧
    nodes.length = (hints none).length ∧
    (∀ window, hints window =
      ((nodes.zip (hints none)).filter fun p => p.1.span.ShownIn window).map (·.2)) ∧
    ∀ t ∈ nodes, t.Crosses first second → t.span.ShownIn (some whole) ∧
      ¬ t.span.ShownIn (some first) ∧ ¬ t.span.ShownIn (some second) := by
  intro hints nodes
  refine ⟨hints_sublist d fun s => h.shownIn_of_first, hints_sublist d fun s => h.shownIn_of_second,
    hints_sublist d fun s _ => s.shownIn_none, fun hint hh => hasLine_of_mem_hints d hh, ?_, ?_,
    fun window => hints_eq_filter_zip d ⟨window, settings⟩,
    fun t _ hc => h.shownIn_of_crosses hc⟩
  · simp only [hints, nodes, length_hints]
    exact h.countP_shownIn _
  · simp [hints, nodes, length_hints]

/-! The clause begins on the line of its keyword and ends on the next, on which the entry stands. A
window over the two lines shows both hints, and a window over either of them none for the clause. -/

def clauseOverLines : Document where
  source := "begin\nrescue\n{x:}\nend"
  root :=
    .node ⟨"begin", true, none, 0, 21, ⟨0, 0⟩, ⟨3, 3⟩⟩
      [.node ⟨"rescue", true, none, 6, 17, ⟨1, 0⟩, ⟨2, 4⟩⟩
        [.node ⟨"hash", true, none, 13, 17, ⟨2, 0⟩, ⟨2, 4⟩⟩
          [.node ⟨"pair", true, none, 14, 16, ⟨2, 1⟩, ⟨2, 3⟩⟩
            [.node ⟨"hash_key_symbol", true, some .key, 14, 15, ⟨2, 1⟩, ⟨2, 2⟩⟩ []]]]]
  malformed := false

def bothLines : Window := ⟨1, 0, 2, 4⟩

def clauseLine : Window := ⟨1, 6, 1, 0⟩

def entryLine : Window := ⟨2, 0, 2, 0⟩

theorem clause_over_cut_shown_in_neither_part :
    let hints (w : Window) :=
      (annotate clauseOverLines ⟨some w, ⟨[("enableAll", .bool true)]⟩⟩).hints
    bothLines.CutInto clauseLine entryLine ∧
    (hints bothLines).length = (hints clauseLine).length + (hints entryLine).length + 1 ∧
    (hints bothLines).map (·.label) = ["StandardError", "x"] ∧
    hints clauseLine = [] ∧ (hints entryLine).map (·.label) = ["x"] := by
  intro hints
  have hcut : bothLines.CutInto clauseLine entryLine := by
    constructor <;> decide
  have ⟨_, _, _, _, hcount, _⟩ := windows_split clauseOverLines ⟨[("enableAll", .bool true)]⟩
    bothLines clauseLine entryLine hcut
  have hone : (carriers ⟨[("enableAll", .bool true)]⟩ clauseOverLines.root).countP
      (fun t => t.Crosses clauseLine entryLine) = 1 := by decide +kernel
  rw [hone] at hcount
  exact ⟨hcut, hcount, by decide +kernel, by decide +kernel, by decide +kernel⟩

end RubyInlay
