import Mathlib.Data.List.Chain
import Mathlib.Data.Prod.Lex
import Mathlib.Order.Basic
import Mathlib.Tactic.MkIffOfInductiveProp
import RubyInlay.Proofs.SinglePass

/-! Where hints stand. A hint stands behind the keyword or the key it belongs to and not past the
end of the node around it, so the hints of a tree lie between its ends, those of a sibling behind
those of the siblings before it. Main statement: in a tree laid out like that, the hints of a
document come in the order of their positions, no two of them at one. -/

namespace RubyInlay

open Source

/-- Lines count first, and then the columns of a line. -/
abbrev Position := ℤ ×ₗ ℤ

def Position.of (line column : ℤ) : Position := toLex (line, column)

def Hint.position (h : Hint) : Position := .of h.line h.character

theorem Position.of_lt_of {l l' c c' : ℤ} :
    Position.of l c < .of l' c' ↔ l < l' ∨ l = l' ∧ c < c' := Prod.Lex.toLex_lt_toLex

theorem Position.of_le_of {l l' c c' : ℤ} :
    Position.of l c ≤ .of l' c' ↔ l < l' ∨ l = l' ∧ c ≤ c' := Prod.Lex.toLex_le_toLex

namespace Source.Tree

def first (t : Tree) : Position := .of t.info.start.row t.info.start.column

def last (t : Tree) : Position := .of t.info.stop.row t.info.stop.column

/-- The end of the keyword that a rescue clause begins with. -/
def keywordEnd (t : Tree) : Position := .of t.info.start.row (t.info.start.column + 6)

/-- The layout of one node. Its named children lie inside it, one behind the other; what is in a
rescue clause comes behind the keyword; an entry without a value is a key on one line, at least as
wide as its name, and a colon. -/
@[mk_iff] structure Laid (source : Bytes) (t : Tree) : Prop where
  forward : t.first ≤ t.last
  inside : ∀ u ∈ t.namedChildren, t.first ≤ u.first ∧ u.last ≤ t.last
  apart : t.namedChildren.IsChain fun u v => u.last ≤ v.first
  clause : t.kind = "rescue" →
    t.keywordEnd ≤ t.last ∧ ∀ u ∈ t.namedChildren, t.keywordEnd ≤ u.first
  entry : ∀ key, shorthandKey? t = some key →
    t.namedChildren = [key] ∧ key.kind ≠ "rescue" ∧ key.namedChildren = [] ∧
      key.info.start.row = key.info.stop.row ∧
      key.info.start.column + (keyName source key).length ≤ key.info.stop.column ∧
      .of key.info.stop.row (key.info.stop.column + 1) ≤ t.last

/-- All visited nodes of a tree are laid out. -/
def LaidOut (source : Bytes) (t : Tree) : Prop :=
  ∀ u ∈ t.visited, u.Laid source

theorem laidOut_iff {source : Bytes} {t : Tree} :
    t.LaidOut source ↔ t.Laid source ∧ ∀ u ∈ t.namedChildren, u.LaidOut source := by
  rw [LaidOut, visited_eq]
  simp only [List.forall_mem_cons, List.mem_flatMap]
  constructor
  · exact fun h => ⟨h.1, fun u hu v hv => h.2 v ⟨u, hu, hv⟩⟩
  · exact fun h => ⟨h.1, fun v ⟨u, hu, hv⟩ => h.2 u hu v hv⟩

theorem laidOut_node {source : Bytes} {info : Info} {ts : List Tree} :
    (node info ts).LaidOut source ↔
      (node info ts).Laid source ∧ ∀ u ∈ ts.filter (·.info.named), u.LaidOut source :=
  laidOut_iff

end Source.Tree

/-! ### Stretches of hints -/

/-- The hints come in order, behind `lo` and up to `hi`. -/
structure Within (lo hi : Position) (hints : List Hint) : Prop where
  behind : ∀ h ∈ hints, lo < h.position
  upTo : ∀ h ∈ hints, h.position ≤ hi
  increasing : hints.Pairwise (·.position < ·.position)

namespace Within

variable {lo lo' mid hi hi' : Position} {hs hs' : List Hint}

theorem nil : Within lo hi [] := ⟨by simp, by simp, .nil⟩

theorem singleton {h : Hint} (hlo : lo < h.position) (hhi : h.position ≤ hi) :
    Within lo hi [h] := ⟨by simpa, by simpa, List.pairwise_singleton _ h⟩

theorem mono (h : Within lo hi hs) (hlo : lo' ≤ lo) (hhi : hi ≤ hi') : Within lo' hi' hs where
  behind x hx := hlo.trans_lt (h.behind x hx)
  upTo x hx := (h.upTo x hx).trans hhi
  increasing := h.increasing

theorem append (h : Within lo mid hs) (h' : Within mid hi hs') (hlo : lo ≤ mid) (hhi : mid ≤ hi) :
    Within lo hi (hs ++ hs') where
  behind x hx := (List.mem_append.1 hx).elim (h.behind x) fun hx => hlo.trans_lt (h'.behind x hx)
  upTo x hx := (List.mem_append.1 hx).elim (fun hx => (h.upTo x hx).trans hhi) (h'.upTo x)
  increasing := List.pairwise_append.2 ⟨h.increasing, h'.increasing,
    fun x hx y hy => (h.upTo x hx).trans_lt (h'.behind y hy)⟩

end Within

/-! ### Hints of a tree -/

variable {source : Bytes} {c : Collector} {lo hi : Position} {t key : Tree}

theorem entryHints_eq_nil (h : t.kind ≠ "rescue") : entryHints c t = [] :=
  if_neg fun hr => h hr.1

/-- The hint on entering a node stands at the end of its keyword. -/
theorem within_entryHints (hlo : lo < t.keywordEnd) (hhi : t.keywordEnd ≤ hi) :
    Within lo hi (entryHints c t) := by
  unfold entryHints
  split_ifs
  · exact .singleton hlo hhi
  · exact .nil

theorem exitHints_of_none (h : shorthandKey? t = none) (scope : Scope) :
    exitHints source c scope t = [] := by
  rw [exitHints, h]

/-- The hint on leaving an entry stands behind its key and the colon. -/
theorem within_exitHints (h : t.Laid source) (hk : shorthandKey? t = some key) (scope : Scope) :
    Within t.first t.last (exitHints source c scope t) := by
  obtain ⟨hnamed, -, -, hrow, hwidth, hend⟩ := h.entry key hk
  have hfirst : t.first ≤ key.first := (h.inside key (by simp [hnamed])).1
  simp only [exitHints, hk]
  split_ifs
  · refine .singleton (hfirst.trans_lt ?_) (le_trans ?_ hend)
    · exact Position.of_lt_of.2 (.inr ⟨rfl, by simp only; omega⟩)
    · exact Position.of_le_of.2 (.inr ⟨by simp only; omega, by simp only; omega⟩)
  · exact .nil

/-- A key has no hint of its own. -/
theorem pass_key (h : t.Laid source) (hk : shorthandKey? t = some key)
    (hl : key.Laid source) (scope : Scope) : (pass source c scope key).1 = [] := by
  obtain ⟨-, hkind, hleaf, -⟩ := h.entry key hk
  have hnone : shorthandKey? key = none := by
    rw [Option.eq_none_iff_forall_ne_some]
    intro k hk'
    simpa [hleaf] using (hl.entry k hk').1
  rw [pass, hleaf, passAll, entryHints_eq_nil hkind, exitHints_of_none hnone]
  rfl

/-- The hints of siblings lie between what bounds the first of them and what bounds all. -/
theorem within_passAll {ts : List Tree}
    (hts : ∀ t ∈ ts, ∀ scope, Within t.first t.last (pass source c scope t).1)
    (hforward : ∀ t ∈ ts, t.first ≤ t.last) (hapart : ts.IsChain fun u v => u.last ≤ v.first)
    (hlo : ∀ t ∈ ts.head?, lo ≤ t.first) (hhi : ∀ t ∈ ts, t.last ≤ hi) (scope : Scope) :
    Within lo hi (passAll source c scope ts).1 := by
  induction ts generalizing lo scope with
  | nil => rw [passAll]; exact .nil
  | cons t ts ih =>
    obtain ⟨hnext, hapart⟩ := List.isChain_cons.1 hapart
    obtain ⟨ht, hts⟩ := List.forall_mem_cons.1 hts
    obtain ⟨hft, hforward⟩ := List.forall_mem_cons.1 hforward
    obtain ⟨hht, hhi⟩ := List.forall_mem_cons.1 hhi
    rw [passAll]
    exact ((ht scope).append (ih hts hforward hapart hnext hhi _) hft hht).mono (hlo t rfl) le_rfl

theorem within_pass (h : t.LaidOut source) (scope : Scope) :
    Within t.first t.last (pass source c scope t).1 := by
  induction t using Tree.named_induction generalizing scope with
  | node t ih =>
    obtain ⟨ht, hbelow⟩ := Tree.laidOut_iff.1 h
    have laid {u : Tree} (hu : u ∈ t.namedChildren) : u.Laid source :=
      (Tree.laidOut_iff.1 (hbelow u hu)).1
    rw [pass]
    cases hk : shorthandKey? t with
    | some key =>
      have hnamed := (ht.entry key hk).1
      have hkind : t.kind ≠ "rescue" := by
        rw [(shorthandKey?_eq_some.1 hk).1]; decide
      have hkey : (passAll source c (scopeWithin source scope t) t.namedChildren).1 = [] := by
        rw [hnamed, passAll, passAll, pass_key ht hk (laid (by simp [hnamed]))]
        rfl
      rw [entryHints_eq_nil hkind, hkey]
      exact within_exitHints ht hk _
    | none =>
      have below {lo : Position} (hlo : ∀ u ∈ t.namedChildren, lo ≤ u.first) :
          Within lo t.last (passAll source c (scopeWithin source scope t) t.namedChildren).1 :=
        within_passAll (fun u hu scope => ih u hu (hbelow u hu) scope)
          (fun u hu => (laid hu).forward) ht.apart
          (fun u hu => hlo u (List.mem_of_mem_head? hu)) (fun u hu => (ht.inside u hu).2) _
      rw [exitHints_of_none hk, List.append_nil]
      by_cases hr : t.kind = "rescue"
      · obtain ⟨hlast, hafter⟩ := ht.clause hr
        have hfirst : t.first < t.keywordEnd :=
          Position.of_lt_of.2 (.inr ⟨rfl, by omega⟩)
        exact (within_entryHints hfirst le_rfl).append (below hafter) hfirst.le hlast
      · rw [entryHints_eq_nil hr]
        exact below fun u hu => (ht.inside u hu).1

/-- The hints of a document come in the order of their positions, and no two stand at one. -/
theorem hints_increasing (d : Document) (c : Collector)
    (h : d.root.LaidOut (.ofString d.source)) :
    (annotate d c).hints.Pairwise (·.position < ·.position) := by
  have hpass : (annotate d c).hints = (pass (.ofString d.source) c .empty d.root).1 := by
    rw [annotate_eq, pass_eq, Document.outline, Node.ofTree_eq_outline]
  rw [hpass]
  exact (within_pass h .empty).increasing

/-! In `begin; a; rescue; {x:}; end` the clause has a hint behind its keyword, and one on the entry
within it. -/

def clauseKey : Tree := .onFirstLine "hash_key_symbol" (some .key) 19 20 []

def clauseEntry : Tree := .onFirstLine "pair" none 19 21 [clauseKey]

def entryInClause : Tree :=
  .onFirstLine "program" none 0 27
    [.onFirstLine "begin" none 0 27
      [.onFirstLine "identifier" none 7 8 [],
       .onFirstLine "rescue" none 10 23
        [.onFirstLine "then" none 16 23 [.onFirstLine "hash" none 18 22 [clauseEntry]]]]]

theorem entryInClause_laidOut :
    entryInClause.LaidOut (.ofString "begin; a; rescue; {x:}; end") := by
  have hname : (keyName (.ofString "begin; a; rescue; {x:}; end") clauseKey).length = 1 := by
    decide +kernel
  simp only [clauseKey, Tree.onFirstLine] at hname
  simp [entryInClause, clauseEntry, clauseKey, Tree.onFirstLine, Tree.laidOut_node, Tree.laid_iff,
    Tree.namedChildren, shorthandKey?, Tree.child?, Tree.kind, Tree.first, Tree.last,
    Tree.keywordEnd, Position.of_le_of, List.filter_cons, hname]

theorem hints_increasing_in_clause :
    entryInClause.LaidOut (.ofString "begin; a; rescue; {x:}; end") ∧
    (annotate ⟨"begin; a; rescue; {x:}; end", entryInClause, false⟩
      ⟨none, ⟨[("enableAll", .bool true)]⟩⟩).hints.map (·.position) = [.of 0 16, .of 0 21] ∧
    (annotate ⟨"begin; a; rescue; {x:}; end", entryInClause, false⟩
      ⟨none, ⟨[("enableAll", .bool true)]⟩⟩).hints.Pairwise (·.position < ·.position) :=
  ⟨entryInClause_laidOut, by decide +kernel, hints_increasing _ _ entryInClause_laidOut⟩

end RubyInlay
