import RubyInlay.Proofs.Outline.Skeleton
import RubyInlay.Proofs.SinglePass
import RubyInlay.Proofs.Source.Slice

/-! Columns of hints. The hint of an entry stands as many columns behind the start of its key as the
name has characters, and one more for the colon, while the columns of a tree count bytes. Main
statement: the hint falls short of the end of the colon by one column for each byte that the name
has beyond its characters, and so by none exactly if the name is ASCII. -/

namespace RubyInlay

open Source Text.Utf8

variable {source : Bytes} {c : Collector} {t key : Tree} {p : Place} {text : List Char}

/-! ### Names without marks -/

namespace Text

variable {α : Type} {mark : α → Bool} {l : List α}

theorem dropEndWhile_eq_self (h : ∀ x ∈ l.getLast?, mark x = false) : dropEndWhile mark l = l := by
  rcases List.eq_nil_or_concat l with rfl | ⟨l, x, rfl⟩
  · rfl
  · rw [List.concat_eq_append]
    exact dropEndWhile_concat_of_neg (h x (by simp)) l

theorem trim_eq_self (hfirst : ∀ x ∈ l.head?, mark x = false)
    (hlast : ∀ x ∈ l.getLast?, mark x = false) : trim mark l = l := by
  have hdrop : l.dropWhile mark = l := by
    cases l with
    | nil => rfl
    | cons x l => simp [hfirst x rfl]
  rw [trim, hdrop, dropEndWhile_eq_self hlast]

end Text

/-- A text with no colon at its end and no blank at either end. -/
structure Bare (text : List Char) : Prop where
  colon : text.getLast? ≠ some ':'
  first : ∀ c ∈ text.head?, Text.isBlank c = false
  last : ∀ c ∈ text.getLast?, Text.isBlank c = false

theorem Bare.keyName_eq (h : Bare text) (hk : key.chars source = text) :
    keyName source key = text := by
  have hcolon : Text.dropEndWhile (· == ':') text = text :=
    Text.dropEndWhile_eq_self fun c hc => beq_eq_false_iff_ne.2 (by rintro rfl; exact h.colon hc)
  rw [keyName, hk, hcolon, Text.trim_eq_self h.first h.last]

/-! ### Nodes on a line -/

/-- A node that stands on one line, for a part of the source, with as many columns as the part has
bytes. -/
structure Source.Tree.Spells (source : String) (t : Tree) (part : String) : Prop where
  split : ∃ before after, source = before ++ part ++ after ∧
    t.info.startByte = before.utf8ByteSize ∧ t.info.stopByte = (before ++ part).utf8ByteSize
  row : t.info.start.row = t.info.stop.row
  columns : (t.info.stop.column : ℤ) - t.info.start.column = t.info.stopByte - t.info.startByte

theorem Source.Tree.Spells.chars_eq {source part : String} (h : t.Spells source part) :
    t.chars (.ofString source) = part.toList := by
  obtain ⟨before, after, rfl, hstart, hstop⟩ := h.split
  rw [chars, hstart, hstop, Bytes.text_of_split]

theorem Source.Tree.Spells.stop_column {source part : String} (h : t.Spells source part) :
    (t.info.stop.column : ℤ) = t.info.start.column + part.utf8ByteSize := by
  obtain ⟨before, after, -, hstart, hstop⟩ := h.split
  have hcolumns := h.columns
  rw [String.utf8ByteSize_append] at hstop
  omega

/-! ### Hints of entries -/

theorem Node.mem_preorder_of_nodeAt? {n m : Node} (h : n.nodeAt? p = some m) : m ∈ n.preorder := by
  induction p generalizing n with
  | nil =>
    cases h
    simp [preorder_eq]
  | cons i p ih =>
    obtain ⟨c, hc, hm⟩ := Option.bind_eq_some_iff.1 h
    rw [preorder_eq, preorders_eq_flatMap]
    exact List.mem_cons_of_mem _ (List.mem_flatMap.2 ⟨c, List.mem_of_getElem? hc, ih hm⟩)

theorem getElem?_children_outline (hk : LeavesOut t key) (scope : Scope) :
    (outline source scope t).children[t.namedChildren.length]? =
      some (entryValue source (scopeLeft source scope t) key) := by
  have hlength : (outlines source (scopeWithin source scope t) t.namedChildren).length =
      t.namedChildren.length := length_outlines _ _
  rw [children_outline_of_leavesOut hk, ← hlength, List.getElem?_concat_length]

/-- Behind the children of an entry that leaves its value out stands the value, labelled with the
name of the key. -/
theorem exists_omittedValue {root : Tree} (ht : root.nodeAt? p = some t) (hk : LeavesOut t key) :
    ∃ value, (Node.ofTree source root).nodeAt? (p ++ [t.namedChildren.length]) =
        some (.omittedValue key.span value) ∧
      value.referent.label = String.ofList (keyName source key) := by
  obtain ⟨scope, hat⟩ : ∃ scope, (outline source .empty root).nodeAt? p =
      some (outline source scope t) := ⟨_, nodeAt?_outline ht⟩
  have hlast : (outline source .empty root).nodeAt? (p ++ [t.namedChildren.length]) =
      some (entryValue source (scopeLeft source scope t) key) := by
    rw [Node.nodeAt?_append, hat, Option.bind_some, Node.nodeAt?_cons,
      getElem?_children_outline hk, Option.bind_some, Node.nodeAt?_nil]
  rw [Node.ofTree_eq_outline]
  exact ⟨_, hlast, label_ofName _ _⟩

/-- The hint of an entry whose key is written without marks is labelled with the text of the key. As
many columns before the end of the colon as the text has bytes beyond its characters, it stands at
the end if the text is ASCII, and else before it. -/
theorem entry_hint_column (d : Document) (c : Collector) {p : Place} {t key : Tree} {text : String}
    (ht : d.root.nodeAt? p = some t) (hk : LeavesOut t key) (hkey : key.Spells d.source text)
    (hbare : Bare text.toList) (hon : c.settings.shows .omittedValue)
    (hshown : key.span.ShownIn c.window) :
    ∃ value hint, d.outline.1.nodeAt? (p ++ [t.namedChildren.length]) =
        some (.omittedValue key.span value) ∧
      c.hint? (.omittedValue key.span value) = some hint ∧ hint ∈ (annotate d c).hints ∧
      hint.line = key.info.start.row ∧ hint.label = text ∧
      hint.character + ((text.utf8ByteSize : ℤ) - text.length) = key.info.stop.column + 1 ∧
      (hint.character = key.info.stop.column + 1 ↔ ∀ c ∈ text.toList, c.toNat < 0x80) ∧
      (¬ (∀ c ∈ text.toList, c.toNat < 0x80) → hint.character < key.info.stop.column + 1) := by
  obtain ⟨value, hat, hlabel⟩ : ∃ value, d.outline.1.nodeAt? (p ++ [t.namedChildren.length]) =
      some (.omittedValue key.span value) ∧ _ := exists_omittedValue ht hk
  rw [hbare.keyName_eq hkey.chars_eq, String.ofList_toList] at hlabel
  have hint : c.hint? (.omittedValue key.span value) = some (valueHint key.span value) :=
    if_pos ⟨hon, hshown⟩
  have hcolumn : (valueHint key.span value).character +
      ((text.utf8ByteSize : ℤ) - text.length) = key.info.stop.column + 1 := by
    have hstop := hkey.stop_column
    simp only [valueHint, Tree.span, hlabel]
    omega
  have hlength : text.toList.length = text.length := String.length_toList
  have hle := length_le_length_encode text.toList
  have hascii := length_encode_eq_iff text.toList
  rw [length_encode, hlength] at hle hascii
  refine ⟨value, _, hat, hint, ?_, ?_, hlabel, hcolumn, ?_, ?_⟩
  · rw [annotate_eq]
    exact List.mem_filterMap.2 ⟨_, Node.mem_preorder_of_nodeAt? hat, hint⟩
  · simp [valueHint, Tree.span]
  · rw [← hascii]
    omega
  · intro hnot
    rw [← hascii] at hnot
    omega

/-! The key `größe` has five characters in seven bytes, so its hint stands two columns before the end
of the colon, which is column 9. -/

def wideKey : Tree := .onFirstLine "hash_key_symbol" (some .key) 1 8 []

def wideEntry : Tree := .onFirstLine "pair" none 1 9 [wideKey]

def entryWithWideKey : Document where
  source := "{größe:}"
  root := .onFirstLine "program" none 0 10 [.onFirstLine "hash" none 0 10 [wideEntry]]
  malformed := false

theorem wide_key_hint_before_colon_end :
    let c : Collector := ⟨none, ⟨[("implicitHashValue", .bool true)]⟩⟩
    entryWithWideKey.root.nodeAt? [0, 0] = some wideEntry ∧ LeavesOut wideEntry wideKey ∧
    wideKey.Spells entryWithWideKey.source "größe" ∧ Bare "größe".toList ∧
    ∃ value hint, entryWithWideKey.outline.1.nodeAt? [0, 0, 1] =
        some (.omittedValue wideKey.span value) ∧
      c.hint? (.omittedValue wideKey.span value) = some hint ∧
      hint ∈ (annotate entryWithWideKey c).hints ∧ hint.label = "größe" ∧ hint.character = 7 := by
  intro c
  have ht : entryWithWideKey.root.nodeAt? [0, 0] = some wideEntry := rfl
  have hk : LeavesOut wideEntry wideKey := ⟨rfl, rfl, rfl⟩
  have hkey : wideKey.Spells entryWithWideKey.source "größe" :=
    ⟨⟨"\x7b", ":\x7d", by decide, by decide, by decide⟩, rfl, by decide⟩
  have hbare : Bare "größe".toList := by
    refine ⟨by decide, ?_, ?_⟩ <;> (rintro c ⟨⟩; decide)
  obtain ⟨value, hint, hat, hhint, hmem, -, hlabel, hcolumn, -⟩ := entry_hint_column entryWithWideKey
    c ht hk hkey hbare rfl (Span.shownIn_none _)
  refine ⟨ht, hk, hkey, hbare, value, hint, hat, hhint, hmem, hlabel, ?_⟩
  have hsize : ("größe".utf8ByteSize : ℤ) - "größe".length = 2 := by decide
  have hstop : wideKey.info.stop.column = 8 := rfl
  omega

end RubyInlay
