import Mathlib.Algebra.Ring.Parity
import Mathlib.Data.List.Infix
import Mathlib.Data.List.TakeWhile
import RubyInlay.Proofs.Source.Introduction

/-! Where a regular expression has named groups. No group begins inside another, and a search that
finds none at a place goes on with the next one, so it finds every place where the text reads as a
named group. It does not look at what stands before: where backslashes escape the parenthesis, it
takes the text for a group all the same. Main statement: the variables of a match are all named by
groups exactly if each name behind an escaped parenthesis is also that of a group. -/

namespace RubyInlay.Source

namespace NamedGroup

variable {text before after name : List Char} {c : Char}

/-- A word that could be a local variable's name. -/
def IsName (name : List Char) : Prop :=
  ∃ c rest, name = c :: rest ∧ ('a' ≤ c ∧ c ≤ 'z' ∨ c = '_') ∧
    ∀ d ∈ rest, 'A' ≤ d ∧ d ≤ 'Z' ∨ 'a' ≤ d ∧ d ≤ 'z' ∨ '0' ≤ d ∧ d ≤ '9' ∨ d = '_'

/-- Behind `before`, the text reads as a group of some name. -/
def ReadsGroup (text before name : List Char) : Prop :=
  IsName name ∧ ∃ after, text = before ++ '(' :: '?' :: '<' :: (name ++ '>' :: after)

/-- The number of backslashes at the end of a text. -/
def backslashes (before : List Char) : Nat :=
  (before.reverse.takeWhile (· == '\\')).length

/-- A character behind an odd number of backslashes stands for itself: the others escape each other
in pairs. -/
def Escaped (before : List Char) : Prop :=
  Odd (backslashes before)

instance (before : List Char) : Decidable (Escaped before) :=
  inferInstanceAs (Decidable (Odd _))

/-- Behind `before`, the text has a group of some name. -/
def HasGroup (text before name : List Char) : Prop :=
  ReadsGroup text before name ∧ ¬ Escaped before

/-! ### One group -/

theorem isLower_iff : c.isLower ↔ 'a' ≤ c ∧ c ≤ 'z' := by
  show (decide ('a' ≤ c) && decide (c ≤ 'z')) = true ↔ _
  simp

theorem isAlphanum_iff :
    c.isAlphanum ↔ 'A' ≤ c ∧ c ≤ 'Z' ∨ 'a' ≤ c ∧ c ≤ 'z' ∨ '0' ≤ c ∧ c ≤ '9' := by
  show (decide ('A' ≤ c ∧ c ≤ 'Z') || c.isLower || decide ('0' ≤ c) && decide (c ≤ '9')) = true ↔ _
  simp [isLower_iff, or_assoc]

theorem isNameStart_iff : isNameStart c ↔ 'a' ≤ c ∧ c ≤ 'z' ∨ c = '_' := by
  simp [isNameStart, isLower_iff]

theorem isNamePart_iff : isNamePart c ↔
    'A' ≤ c ∧ c ≤ 'Z' ∨ 'a' ≤ c ∧ c ≤ 'z' ∨ '0' ≤ c ∧ c ≤ '9' ∨ c = '_' := by
  simp [isNamePart, isAlphanum_iff, or_assoc]

theorem isName_cons {rest : List Char} :
    IsName (c :: rest) ↔ isNameStart c ∧ ∀ d ∈ rest, isNamePart d := by
  simp [IsName, isNameStart_iff, isNamePart_iff]

theorem group?_eq_some_iff : group? text = some (name, after) ↔
    IsName name ∧ text = '(' :: '?' :: '<' :: (name ++ '>' :: after) := by
  constructor
  · intro h
    unfold group? at h
    split at h
    · rename_i c rest
      split at h
      · rename_i hc
        split at h
        · rename_i after' hafter
          cases h
          refine ⟨isName_cons.2 ⟨hc, fun d hd => List.mem_takeWhile_imp hd⟩, ?_⟩
          rw [List.cons_append, ← hafter, List.takeWhile_append_dropWhile]
        · cases h
      · cases h
    · cases h
  · rintro ⟨hname, rfl⟩
    obtain ⟨c, rest, rfl, -⟩ := id hname
    obtain ⟨hc, hrest⟩ := isName_cons.1 hname
    have hdrop : (rest ++ '>' :: after).dropWhile isNamePart = '>' :: after :=
      List.dropWhile_append_of_pos hrest
    have htake : (rest ++ '>' :: after).takeWhile isNamePart = rest := by
      rw [List.takeWhile_append_of_pos hrest]
      exact List.append_nil rest
    simp only [List.cons_append, group?, if_pos hc, hdrop, htake]

theorem group?_eq_none_of_ne (h : c ≠ '(') : group? (c :: text) = none := by
  rw [Option.eq_none_iff_forall_ne_some]
  rintro ⟨name, after⟩ hg
  exact h (List.cons.inj (group?_eq_some_iff.1 hg).2).1

theorem IsName.notMem_parenthesis (h : IsName name) : '(' ∉ name := by
  obtain ⟨c, rest, rfl, hc, hrest⟩ := h
  intro hm
  rcases List.mem_cons.1 hm with rfl | hm
  · revert hc; decide
  · have := hrest _ hm
    revert this; decide

/-! ### All groups -/

/-- The name of the group that a text begins with. -/
def leading? (text : List Char) : Option (List Char) :=
  (group? text).map (·.1)

theorem leading?_eq_some_iff : leading? text = some name ↔ ReadsGroup text [] name := by
  simp only [leading?, Option.map_eq_some_iff, Prod.exists, exists_and_right, exists_eq_right,
    group?_eq_some_iff, ReadsGroup, exists_and_left, List.nil_append]

/-- A group begins with a parenthesis. -/
theorem filterMap_leading?_append (h : '(' ∉ before) :
    (before ++ after).tails.filterMap leading? = after.tails.filterMap leading? := by
  induction before with
  | nil => rfl
  | cons c before ih =>
    obtain ⟨hc, hbefore⟩ := not_or.1 (mt List.mem_cons.2 h)
    have hnone : leading? (c :: (before ++ after)) = none := by
      rw [leading?, group?_eq_none_of_ne (Ne.symm hc), Option.map_none]
    rw [List.cons_append, List.tails_cons, List.filterMap_cons_none hnone, ih hbefore]

theorem names_of_group? (h : group? text = some (name, after)) :
    names text = name :: names after := by
  cases text with
  | nil => cases h
  | cons c rest =>
    rw [names]
    split
    · rename_i h'
      cases h'.symm.trans h
      rfl
    · rename_i h'
      cases h'.symm.trans h

theorem names_cons_of_none (h : group? (c :: text) = none) : names (c :: text) = names text := by
  rw [names]
  split
  · rename_i h'
    cases h'.symm.trans h
  · rfl

/-- The search finds the groups of all places, in order. -/
theorem names_eq (text : List Char) : names text = text.tails.filterMap leading? := by
  induction text using names.induct with
  | case1 => rw [names]; rfl
  | case2 c rest name after h _ ih =>
    obtain ⟨hname, htext⟩ := group?_eq_some_iff.1 h
    obtain ⟨rfl, hrest⟩ := List.cons.inj htext
    have hinside : '(' ∉ '?' :: '<' :: (name ++ ['>']) := by
      simpa using hname.notMem_parenthesis
    have hsplit : rest = '?' :: '<' :: (name ++ ['>']) ++ after := by simp [hrest]
    have hleading : leading? ('(' :: rest) = some name := by rw [leading?, h, Option.map_some]
    rw [names_of_group? h, ih, List.tails_cons, List.filterMap_cons_some hleading, hsplit,
      filterMap_leading?_append hinside]
  | case3 c rest h ih =>
    have hleading : leading? (c :: rest) = none := by rw [leading?, h, Option.map_none]
    rw [names_cons_of_none h, ih, List.tails_cons, List.filterMap_cons_none hleading]

theorem readsGroup_iff : ReadsGroup text before name ↔
    ∃ rest, text = before ++ rest ∧ leading? rest = some name := by
  simp only [leading?_eq_some_iff, ReadsGroup, List.nil_append]
  constructor
  · rintro ⟨hname, after, rfl⟩
    exact ⟨_, rfl, hname, after, rfl⟩
  · rintro ⟨_, rfl, hname, after, rfl⟩
    exact ⟨hname, after, rfl⟩

theorem mem_names : name ∈ names text ↔ ∃ before, ReadsGroup text before name := by
  simp only [names_eq, List.mem_filterMap, List.mem_tails, readsGroup_iff]
  constructor
  · rintro ⟨rest, ⟨before, rfl⟩, hname⟩
    exact ⟨before, rest, rfl, hname⟩
  · rintro ⟨before, rest, rfl, hname⟩
    exact ⟨rest, ⟨before, rfl⟩, hname⟩

/-- The places of a given text can be gone through. -/
theorem readsGroup_iff_drop : ReadsGroup text before name ↔
    before ∈ text.inits ∧ leading? (text.drop before.length) = some name := by
  rw [readsGroup_iff, List.mem_inits]
  constructor
  · rintro ⟨rest, rfl, hname⟩
    exact ⟨List.prefix_append before rest, by rwa [List.drop_left]⟩
  · rintro ⟨⟨rest, rfl⟩, hname⟩
    exact ⟨rest, rfl, by rwa [List.drop_left] at hname⟩

theorem eq_of_readsGroup (place : List Char)
    (honly : ∀ before ∈ text.inits, before = place ∨ leading? (text.drop before.length) = none)
    (h : ReadsGroup text before name) : before = place := by
  obtain ⟨hbefore, hname⟩ := readsGroup_iff_drop.1 h
  refine (honly before hbefore).resolve_right ?_
  rw [hname]
  exact Option.some_ne_none name

end NamedGroup

open NamedGroup

variable {source : Bytes} {t regex : Tree}

/-! ### Matches -/

/-- A match introduces the names at all places where its regular expression reads as a group. -/
theorem mem_introduced_of_match {name : String} (h : MatchesLiteral t regex) :
    name ∈ introduced source t ↔
      ∃ before, ReadsGroup (regex.chars source) before name.toList := by
  obtain ⟨hk, hoperator, hleft, hregex, hfixed⟩ := h
  rw [introduced, Binder.ofKind?_eq_some.2 hk]
  refine mem_captures.trans ?_
  constructor
  · rintro ⟨-, _, hleft', -, -, word, hword, rfl⟩
    cases hleft.symm.trans hleft'
    rw [String.toList_ofList]
    exact mem_names.1 hword
  · intro hname
    exact ⟨hoperator, regex, hleft, hregex, hfixed, name.toList, mem_names.2 hname,
      String.ofList_toList⟩

/-- A match introduces a variable for each place where its regular expression reads as a group. All of
them are named by groups exactly if each name behind an escaped parenthesis is also that of a group. -/
theorem match_names_groups_iff (source : Bytes) (h : MatchesLiteral t regex) :
    (∀ name : String, name ∈ introduced source t ↔
      ∃ before, ReadsGroup (regex.chars source) before name.toList) ∧
    ((∀ name ∈ introduced source t,
        ∃ before, HasGroup (regex.chars source) before name.toList) ↔
      ∀ before name, ReadsGroup (regex.chars source) before name → Escaped before →
        ∃ before', HasGroup (regex.chars source) before' name) := by
  refine ⟨fun _ => mem_introduced_of_match h, ?_, ?_⟩
  · intro hall before name hreads _
    have hname : String.ofList name ∈ introduced source t := by
      rw [mem_introduced_of_match h, String.toList_ofList]
      exact ⟨before, hreads⟩
    simpa using hall _ hname
  · intro hescaped name hname
    obtain ⟨before, hreads⟩ := (mem_introduced_of_match h).1 hname
    by_cases he : Escaped before
    · exact hescaped before _ hreads he
    · exact ⟨before, hreads, he⟩

/-! In `/\\(?<a>x)/ =~ s` one backslash escapes the other, and the variable is named by a group. In
`/\(?<a>x/ =~ s` the parenthesis is escaped; there is no group, and the match introduces the variable
all the same. -/

/-- A regular expression up to a byte, with an escape at its start. -/
def escapeFirst (stop : Nat) : Tree :=
  .onFirstLine "regex" (some .left) 0 stop
    [.onFirstLine "escape_sequence" none 1 3 [],
     .onFirstLine "string_content" none 3 (stop - 1) []]

def escapeFirstMatch (stop : Nat) : Tree :=
  .onFirstLine "binary" none 0 (stop + 5)
    [escapeFirst stop,
     .node ⟨"=~", false, some .operator, stop + 1, stop + 3, ⟨0, stop + 1⟩, ⟨0, stop + 3⟩⟩ [],
     .onFirstLine "identifier" none (stop + 4) (stop + 5) []]

theorem matchesLiteral_escapeFirst (stop : Nat) :
    MatchesLiteral (escapeFirstMatch stop) (escapeFirst stop) := by
  refine ⟨List.mem_singleton_self _, ⟨_, rfl, rfl⟩, rfl, rfl, ?_⟩
  intro c hc
  have hparts : c ∈ [.onFirstLine "escape_sequence" none 1 3 [],
    .onFirstLine "string_content" none 3 (stop - 1) []] := hc
  rcases List.mem_pair.1 hparts with rfl | rfl <;> simp [Tree.onFirstLine, Tree.kind]

theorem escaped_backslash_leaves_group :
    let source := Bytes.ofString "/\\\\(?<a>x)/ =~ s"
    MatchesLiteral (escapeFirstMatch 11) (escapeFirst 11) ∧
      "a" ∈ introduced source (escapeFirstMatch 11) ∧
      ∀ name ∈ introduced source (escapeFirstMatch 11),
        ∃ before, HasGroup ((escapeFirst 11).chars source) before name.toList := by
  intro source
  have htext : (escapeFirst 11).chars source = "/\\\\(?<a>x)/".toList := by decide +kernel
  have ⟨hnames, hgroups⟩ := match_names_groups_iff source (matchesLiteral_escapeFirst 11)
  refine ⟨matchesLiteral_escapeFirst 11, (hnames "a").2 ?_, hgroups.2 ?_⟩
  · rw [htext]
    exact ⟨"/\\\\".toList, readsGroup_iff_drop.2 (by decide)⟩
  · rw [htext]
    intro before name hreads hescaped
    obtain rfl := eq_of_readsGroup "/\\\\".toList (by decide +kernel) hreads
    exact absurd hescaped (by decide)

theorem escaped_parenthesis_introduces_variable :
    let source := Bytes.ofString "/\\(?<a>x/ =~ s"
    MatchesLiteral (escapeFirstMatch 9) (escapeFirst 9) ∧
      "a" ∈ introduced source (escapeFirstMatch 9) ∧
      ¬ ∃ before, HasGroup ((escapeFirst 9).chars source) before "a".toList := by
  intro source
  have htext : (escapeFirst 9).chars source = "/\\(?<a>x/".toList := by decide +kernel
  refine ⟨matchesLiteral_escapeFirst 9, ?_, ?_⟩
  · rw [mem_introduced_of_match (matchesLiteral_escapeFirst 9), htext]
    exact ⟨"/\\".toList, readsGroup_iff_drop.2 (by decide)⟩
  · rw [htext]
    rintro ⟨before, hreads, hescaped⟩
    obtain rfl := eq_of_readsGroup "/\\".toList (by decide +kernel) hreads
    exact hescaped (by decide)

end RubyInlay.Source
