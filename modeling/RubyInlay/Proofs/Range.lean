import RubyInlay.Proofs.Source.Layout
import RubyInlay.Proofs.Window

/-! Ranges that come damaged. A client names the lines of a request in a range, and a part of it that
is missing or of the wrong kind reads as the widest choice. Main statement: in a document that ends
by the line at which a range without an end does, damage to a range hides no hint. -/

namespace RubyInlay

open Source

variable {settings : Settings} {position position' : Option Json} {r r' : Json}
  {entries entries' : Json.Entries} {w' : Window} {t u : Tree}

namespace Window

/-! ### Damage -/

/-- The positions of a range. -/
def positionKeys : List String := ["start", "end"]

/-- The fields of a position. -/
def fieldKeys : List String := ["line", "character"]

/-- A position is no object any more, or some of its fields are gone or hold no integer. -/
inductive DamagedPosition : Option Json → Option Json → Prop
  | position {position position' : Option Json} (h : ∀ fields, position' ≠ some (.object fields)) :
      DamagedPosition position position'
  | fields {fields fields' : Json.Entries}
      (h : ∀ key ∈ fieldKeys, fields'.get? key = fields.get? key ∨
        (fields'.get? key).bind Json.int? = none) :
      DamagedPosition (some (.object fields)) (some (.object fields'))

/-- `Damaged r r'`: some parts of the range `r` are gone or of no use in `r'`, or `r'` is no object
at all. -/
inductive Damaged : Json → Json → Prop
  | range {r r' : Json} (h : ∀ entries, r' ≠ .object entries) : Damaged r r'
  | positions {entries entries' : Json.Entries}
      (h : ∀ key ∈ positionKeys, DamagedPosition (entries.get? key) (entries'.get? key)) :
      Damaged (.object entries) (.object entries')

/-! ### Lines of a range -/

/-- The line that a position names, if it does. -/
def lineOf? (position : Option Json) : Option ℤ :=
  (position.bind (·.get? "line")).bind Json.int?

/-- The line that a range names in its position under a key. -/
def lineAt? (r : Json) (key : String) : Option ℤ :=
  lineOf? (r.get? key)

/-- The window of a range goes from the line that it starts at, or the first one, to the line that
it ends at, or the last one. -/
theorem exists_window (entries : Json.Entries) :
    ∃ w, ofJson? (.object entries) = some w ∧
      w.startLine = (lineAt? (.object entries) "start").getD 0 ∧
      w.endLine = (lineAt? (.object entries) "end").getD lastLine :=
  ⟨_, rfl, rfl, rfl⟩

theorem exists_object_of_mem (h : w' ∈ ofJson? r) : ∃ entries, r = .object entries := by
  cases r with
  | object entries => exact ⟨entries, rfl⟩
  | _ => cases h

/-- Damage leaves the line of a position as it is, or there is none any more. -/
theorem DamagedPosition.lineOf? (h : DamagedPosition position position') :
    Window.lineOf? position' = Window.lineOf? position ∨ Window.lineOf? position' = none := by
  cases h with
  | position h =>
    refine .inr ?_
    cases position' with
    | none => rfl
    | some value =>
      cases value with
      | object fields => exact absurd rfl (h fields)
      | _ => rfl
  | @fields fields fields' h =>
    refine (h "line" (by decide)).imp (fun hline => ?_) fun hline => ?_
    · simp only [Window.lineOf?, Option.bind_some, Json.get?_object, hline]
    · simp only [Window.lineOf?, Option.bind_some, Json.get?_object, hline]

theorem Damaged.lineAt? (h : Damaged (.object entries) (.object entries')) {key : String}
    (hkey : key ∈ positionKeys) (default : ℤ) :
    (Window.lineAt? (.object entries') key).getD default =
        (Window.lineAt? (.object entries) key).getD default ∨
      (Window.lineAt? (.object entries') key).getD default = default := by
  cases h with
  | range h => exact absurd rfl (h entries')
  | positions h =>
    rcases (h key hkey).lineOf? with hline | hline
    · exact .inl (congrArg (·.getD default) hline)
    · exact .inr (congrArg (·.getD default) hline)

/-- The window of a damaged range has the lines of the range, or reaches as far as one can. -/
theorem Damaged.lines (h : Damaged r r') (hw' : w' ∈ ofJson? r') :
    ∃ w ∈ ofJson? r, (w'.startLine = w.startLine ∨ w'.startLine = 0) ∧
      (w'.endLine = w.endLine ∨ w'.endLine = lastLine) := by
  obtain ⟨entries', rfl⟩ := exists_object_of_mem hw'
  obtain ⟨entries, rfl⟩ : ∃ entries, r = .object entries := by
    cases h with
    | range h => exact absurd rfl (h entries')
    | positions h => exact ⟨_, rfl⟩
  obtain ⟨w, hw, hstart, hend⟩ := exists_window entries
  obtain ⟨v, hv, hstart', hend'⟩ := exists_window entries'
  obtain rfl : v = w' := Option.some.inj (hv.symm.trans hw')
  rw [hstart', hend']
  refine ⟨w, hw, ?_, ?_⟩
  · rw [hstart]
    exact h.lineAt? (by decide) 0
  · rw [hend]
    exact h.lineAt? (by decide) lastLine

/-- A range that names no lines has a window of all lines, if it has one. -/
theorem lines_of_lineAt?_eq_none (h : ∀ key ∈ positionKeys, lineAt? r key = none)
    (hw' : w' ∈ ofJson? r) : w'.startLine = 0 ∧ w'.endLine = lastLine := by
  obtain ⟨entries, rfl⟩ := exists_object_of_mem hw'
  obtain ⟨w, hw, hstart, hend⟩ := exists_window entries
  obtain rfl : w = w' := Option.some.inj (hw.symm.trans hw')
  rw [hstart, hend, h "start" (by decide), h "end" (by decide)]
  exact ⟨rfl, rfl⟩

/-- Ranges that name the same lines show the same spans. -/
theorem shownIn_congr
    (h : ∀ key ∈ positionKeys, lineAt? (.object entries') key = lineAt? (.object entries) key)
    (s : Span) :
    s.ShownIn (ofJson? (.object entries')) ↔ s.ShownIn (ofJson? (.object entries)) := by
  obtain ⟨w, hw, hstart, hend⟩ := exists_window entries
  obtain ⟨w', hw', hstart', hend'⟩ := exists_window entries'
  rw [h "start" (by decide), ← hstart] at hstart'
  rw [h "end" (by decide), ← hend] at hend'
  simp only [hw, hw', Span.shownIn_some, HasLine, hstart', hend']

end Window

open Window

/-! ### Nodes up to the last line -/

namespace Source.Tree

/-- No node of a tree reaches past the line at which a range without an end does. -/
def EndsInTime (t : Tree) : Prop :=
  ∀ u, t.Below u → (u.info.start.row : ℤ) ≤ lastLine ∧ (u.info.stop.row : ℤ) ≤ lastLine

/-- A window that starts no later and ends no earlier than another one, as far as there are lines,
shows no node less. -/
theorem EndsInTime.shownIn (h : t.EndsInTime) (hu : t.Below u) {w w' : Window}
    (hs : u.span.ShownIn (some w))
    (hstart : w'.startLine = w.startLine ∨ w'.startLine = 0)
    (hend : w'.endLine = w.endLine ∨ w'.endLine = lastLine) : u.span.ShownIn (some w') := by
  have hlast := h u hu
  rw [shownIn_iff_rows] at hs ⊢
  simp only [HasLine] at hs ⊢
  omega

end Source.Tree

theorem below_of_mem_carriers (h : u ∈ carriers settings t) : t.Below u := by
  induction t using Tree.named_induction with
  | node t ih =>
    rw [carriers_eq, List.append_assoc, List.mem_append, List.mem_append] at h
    rcases h with h | h | h
    · split_ifs at h
      · rw [List.mem_singleton.1 h]
        exact .refl
      · cases h
    · obtain ⟨c, hc, hu⟩ := List.mem_flatMap.1 h
      exact (Tree.below_of_mem (Tree.mem_of_mem_namedChildren hc)).trans (ih c hc hu)
    · split_ifs at h
      · have hkey := (shorthandKey?_eq_some.1 (Option.mem_toList.1 h)).2.2
        exact Tree.below_of_mem (Tree.mem_of_child? hkey)
      · cases h

/-! ### Hints -/

theorem hints_sublist_of_damaged (d : Document) (hd : d.root.EndsInTime) (h : Damaged r r') :
    (annotate d ⟨ofJson? r, settings⟩).hints.Sublist (annotate d ⟨ofJson? r', settings⟩).hints := by
  refine hints_sublist_of_carriers d fun u hu hs w' hw' => ?_
  obtain ⟨w, hw, hstart, hend⟩ := h.lines hw'
  have hshown : u.span.ShownIn (some w) := (Span.shownIn_some _ _).2 (hs w hw)
  exact (Span.shownIn_some _ _).1 (hd.shownIn (below_of_mem_carriers hu) hshown hstart hend)

theorem hints_of_lineAt?_eq_none (d : Document) (hd : d.root.EndsInTime)
    (h : ∀ key ∈ positionKeys, lineAt? r key = none) :
    (annotate d ⟨ofJson? r, settings⟩).hints = (annotate d ⟨none, settings⟩).hints := by
  refine hints_congr d fun u hu => ⟨fun _ => u.span.shownIn_none, fun _ w hw => ?_⟩
  have hlines := lines_of_lineAt?_eq_none h hw
  have hlast := hd u (below_of_mem_carriers hu)
  refine (Span.shownIn_some _ _).1 (shownIn_iff_rows.2 ?_)
  simp only [HasLine]
  omega

/-- In a document that ends in time, a damaged range has the hints of the range in their order and
maybe more, and one that names no lines, as what is no object names none, has all hints. What else a
range holds than lines makes no difference to its hints, in any document. -/
theorem damaged_range_hides_nothing (d : Document) (settings : Settings) :
    let hints (r : Json) := (annotate d ⟨ofJson? r, settings⟩).hints
    (d.root.EndsInTime → ∀ r,
      (∀ r', Damaged r r' → (hints r).Sublist (hints r')) ∧
      ((∀ key ∈ positionKeys, lineAt? r key = none) →
        hints r = (annotate d ⟨none, settings⟩).hints)) ∧
    ∀ entries entries' : Json.Entries,
      (∀ key ∈ positionKeys, lineAt? (.object entries') key = lineAt? (.object entries) key) →
      hints (.object entries') = hints (.object entries) := by
  intro hints
  refine ⟨fun hd r => ⟨fun r' h => hints_sublist_of_damaged d hd h,
    hints_of_lineAt?_eq_none d hd⟩, fun entries entries' h => ?_⟩
  exact hints_congr d fun u _ => shownIn_congr h u.span

/-! The clause begins a line before the entry. A range over the line of the entry shows no hint for
the clause, until its start is no number and its end is gone. -/

def entryRange : Json :=
  .object
    [("start", .object [("line", .int 2), ("character", .int 0)]),
     ("end", .object [("line", .int 2), ("character", .int 4)])]

def entryRangeDamaged : Json :=
  .object [("start", .object [("line", .text "2"), ("character", .int 0)])]

theorem damaged_range_shows_clause :
    let hints (r : Json) :=
      (annotate clauseOverLines ⟨ofJson? r, ⟨[("enableAll", .bool true)]⟩⟩).hints
    clauseOverLines.root.EndsInTime ∧ Damaged entryRange entryRangeDamaged ∧
    (hints entryRange).Sublist (hints entryRangeDamaged) ∧
    hints entryRangeDamaged =
      (annotate clauseOverLines ⟨none, ⟨[("enableAll", .bool true)]⟩⟩).hints ∧
    (hints entryRange).map (·.label) = ["x"] ∧
    (hints entryRangeDamaged).map (·.label) = ["StandardError", "x"] := by
  intro hints
  have hd : clauseOverLines.root.EndsInTime := by
    simp [Tree.EndsInTime, clauseOverLines, Tree.forall_below_node, lastLine]
  have hdamaged : Damaged entryRange entryRangeDamaged := by
    refine .positions fun key hkey => ?_
    rcases List.mem_pair.1 hkey with rfl | rfl
    · refine .fields fun field hfield => ?_
      rcases List.mem_pair.1 hfield with rfl | rfl
      · exact .inr rfl
      · exact .inl rfl
    · exact .position fun fields hgone => by cases hgone
  have hnone : ∀ key ∈ positionKeys, lineAt? entryRangeDamaged key = none := by decide
  have hrange := (damaged_range_hides_nothing clauseOverLines
    ⟨[("enableAll", .bool true)]⟩).1 hd
  exact ⟨hd, hdamaged, (hrange entryRange).1 _ hdamaged, (hrange entryRangeDamaged).2 hnone,
    by decide +kernel, by decide +kernel⟩

end RubyInlay
