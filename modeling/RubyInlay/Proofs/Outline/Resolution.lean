import RubyInlay.Proofs.Outline.Place
import RubyInlay.Proofs.Source.Introduction
import RubyInlay.Proofs.Source.ScopeChain

/-! What a key without a value refers to, said by places alone. A variable is declared for a place
if a construct that introduces it is entered before the node there is left and stands in one of the
scopes on the place's chain. Main statement: with constants set apart, a key refers to a local
variable exactly if one of its name is declared for its entry. -/

namespace RubyInlay

open Source

variable {source : Bytes} {t b c u : Tree} {d p : Place} {i : Nat} {name : String}

namespace Source.Tree

/-- The node `b` at `d` is entered before the node at `p` is left, and its scope is in sight. -/
structure InSight (t : Tree) (p d : Place) (b : Tree) : Prop where
  node : t.nodeAt? d = some b
  entered : d.EnteredBy p
  scope : t.scopeOf d ∈ t.scopeChain p

/-- A node with a property stands in the scope that is around the tree. -/
def Exposes (t : Tree) (P : Tree → Prop) : Prop :=
  ∃ d b, t.nodeAt? d = some b ∧ t.scopeOf d = none ∧ P b

variable {P : Tree → Prop}

theorem mem_take {ts : List Tree} : b ∈ ts.take i ↔ ∃ j < i, ts[j]? = some b := by
  simp [List.mem_iff_getElem?, List.getElem?_take]

theorem exposes_iff : t.Exposes P ↔
    Opening.ofKind? t.kind = none ∧ (P t ∨ ∃ c ∈ t.namedChildren, c.Exposes P) := by
  constructor
  · rintro ⟨_ | ⟨j, d⟩, b, hb, hs, hP⟩
    · cases hb
      exact ⟨by simpa [scopeOf_nil] using hs, .inl hP⟩
    · obtain ⟨c, hc, hb⟩ := nodeAt?_cons_eq_some.1 hb
      obtain ⟨ho, hs⟩ := (scopeOf_eq_none_cons hc).1 hs
      exact ⟨ho, .inr ⟨c, List.mem_of_getElem? hc, d, b, hb, hs, hP⟩⟩
  · rintro ⟨ho, hP | ⟨c, hc, d, b, hb, hs, hP⟩⟩
    · exact ⟨[], t, rfl, by simp [scopeOf_nil, ho], hP⟩
    · obtain ⟨j, hj⟩ := List.mem_iff_getElem?.1 hc
      have hs' := (scopeOf_eq_none_cons hj).2 ⟨ho, hs⟩
      exact ⟨j :: d, b, nodeAt?_cons_eq_some.2 ⟨c, hj, hb⟩, hs', hP⟩

/-- Once a tree is left, what is in sight is its root and what its children expose. -/
theorem exists_inSight_nil :
    (∃ d b, t.InSight [] d b ∧ P b) ↔ P t ∨ ∃ c ∈ t.namedChildren, c.Exposes P := by
  constructor
  · rintro ⟨_ | ⟨j, d⟩, b, ⟨hb, -, hs⟩, hP⟩
    · cases hb; exact .inl hP
    · obtain ⟨c, hc, hb⟩ := nodeAt?_cons_eq_some.1 hb
      exact .inr ⟨c, List.mem_of_getElem? hc, d, b, hb, (scopeOf_cons_mem_nil hc).1 hs, hP⟩
  · rintro (hP | ⟨c, hc, d, b, hb, hs, hP⟩)
    · exact ⟨[], t, ⟨rfl, by simp, scopeOf_nil_mem t⟩, hP⟩
    · obtain ⟨j, hj⟩ := List.mem_iff_getElem?.1 hc
      exact ⟨j :: d, b, ⟨nodeAt?_cons_eq_some.2 ⟨c, hj, hb⟩, by simp,
        (scopeOf_cons_mem_nil hj).2 hs⟩, hP⟩

/-- Below a child, what is in sight is what the child itself has in sight and, unless it is closed
off, the root and what the earlier children expose. -/
theorem exists_inSight_cons (hc : t.namedChildren[i]? = some c) :
    (∃ d b, t.InSight (i :: p) d b ∧ P b) ↔ (∃ d b, c.InSight p d b ∧ P b) ∨
      none ∈ c.scopeChain p ∧ (P t ∨ ∃ b ∈ t.namedChildren.take i, b.Exposes P) := by
  constructor
  · rintro ⟨_ | ⟨j, d⟩, u, ⟨hu, he, hs⟩, hP⟩
    · cases hu
      exact .inr ⟨(scopeOf_nil_mem_cons hc).1 hs, .inl hP⟩
    · obtain ⟨b, hb, hu⟩ := nodeAt?_cons_eq_some.1 hu
      rcases Place.cons_enteredBy_cons.1 he with hj | ⟨rfl, he'⟩
      · obtain ⟨hs, hn⟩ := (scopeOf_cons_mem_cons_of_ne hb hc hj.ne).1 hs
        exact .inr ⟨hn, .inr ⟨b, mem_take.2 ⟨j, hj, hb⟩, d, u, hu, hs, hP⟩⟩
      · obtain rfl : b = c := Option.some.inj (hb.symm.trans hc)
        exact .inl ⟨d, u, ⟨hu, he', (scopeOf_cons_mem_cons hc).1 hs⟩, hP⟩
  · rintro (⟨d, u, ⟨hu, he, hs⟩, hP⟩ | ⟨hn, hP | ⟨b, hb, d, u, hu, hs, hP⟩⟩)
    · exact ⟨i :: d, u, ⟨nodeAt?_cons_eq_some.2 ⟨c, hc, hu⟩,
        Place.cons_enteredBy_cons.2 (.inr ⟨rfl, he⟩), (scopeOf_cons_mem_cons hc).2 hs⟩, hP⟩
    · exact ⟨[], t, ⟨rfl, by simp, (scopeOf_nil_mem_cons hc).2 hn⟩, hP⟩
    · obtain ⟨j, hji, hj⟩ := mem_take.1 hb
      exact ⟨j :: d, u, ⟨nodeAt?_cons_eq_some.2 ⟨b, hj, hu⟩,
        Place.cons_enteredBy_cons.2 (.inl hji),
        (scopeOf_cons_mem_cons_of_ne hj hc hji.ne).2 ⟨hs, hn⟩⟩, hP⟩

end Source.Tree

/-! ### Names -/

theorem mem_leakedAll {ts : List Tree} :
    name ∈ leakedAll source ts ↔ ∃ t ∈ ts, name ∈ leaked source t := by
  simp [leakedAll_eq]

/-- A tree leaks the names of the constructs that stand in the scope around it. -/
theorem mem_leaked : name ∈ leaked source t ↔ t.Exposes (name ∈ introduced source ·) := by
  induction t using Tree.named_induction with
  | node t ih =>
    rw [Tree.exposes_iff]
    cases ho : Opening.ofKind? t.kind with
    | some o => simp [leaked_of_opening ho]
    | none =>
      have hc : (∃ c ∈ t.namedChildren, name ∈ leaked source c) ↔
          ∃ c ∈ t.namedChildren, c.Exposes (name ∈ introduced source ·) :=
        exists_congr fun c => and_congr_right (ih c)
      simp [leaked_of_not_opening ho, mem_leakedAll, hc, or_comm]

theorem mem_scopeWithin {scope : Scope} : name ∈ scopeWithin source scope t ↔
    name ∈ introduced source t ∨ none ∈ t.scopeChain [] ∧ name ∈ scope := by
  rw [scopeWithin, Scope.mem_add, Tree.none_mem_scopeChain_nil]
  cases Opening.ofKind? t.kind with
  | none => simp
  | some o =>
    cases o with
    | closed => simp [Scope.enter]
    | nested => simp

/-- The scope in force when a node is left holds the names in sight and, unless the node is closed
off, those of the scope that the whole tree was entered in. -/
theorem mem_scopeLeft {scope : Scope} (h : t.nodeAt? p = some u) :
    name ∈ scopeLeft source (scopeBefore source scope t p) u ↔
      (∃ d b, t.InSight p d b ∧ name ∈ introduced source b) ∨
        none ∈ t.scopeChain p ∧ name ∈ scope := by
  induction p generalizing scope t with
  | nil =>
    cases h
    rw [Tree.exists_inSight_nil, scopeBefore_nil, scopeLeft, Scope.mem_add, mem_leakedAll,
      mem_scopeWithin]
    simp only [mem_leaked]
    rw [or_left_comm, ← or_assoc]
  | cons i p ih =>
    obtain ⟨c, hc, hu⟩ := Tree.nodeAt?_cons_eq_some.1 h
    rw [scopeBefore_cons hc, ih hu, Tree.exists_inSight_cons hc, Tree.none_mem_scopeChain_cons hc,
      Scope.mem_add, mem_leakedAll, mem_scopeWithin]
    simp only [mem_leaked]
    rw [or_left_comm, ← or_assoc, and_or_left, ← or_assoc, and_assoc]

/-! ### Keys -/

/-- Some construct that is in sight of a place introduces the variable. -/
def Declared (source : Bytes) (root : Tree) (p : Place) (name : String) : Prop :=
  ∃ d b, root.InSight p d b ∧ ∃ o, Introduces source b o name

/-- The form of a constant: it begins with a capital and does not end like a method. -/
def ConstantForm (name : List Char) : Prop :=
  (∃ c, name.head? = some c ∧ Text.isUppercase c) ∧
    name.getLast? ≠ some '?' ∧ name.getLast? ≠ some '!'

theorem isConstantName_iff {name : List Char} : isConstantName name ↔ ConstantForm name := by
  unfold isConstantName ConstantForm
  cases name.head? <;> cases name.getLast? <;> simp

/-- What a name refers to at a place. -/
inductive Resolves (source : Bytes) (root : Tree) (p : Place) (name : List Char) : Referent → Prop
  | constant (hc : ConstantForm name) :
      Resolves source root p name (.constant (String.ofList name))
  | localVariable (hc : ¬ ConstantForm name) (hd : Declared source root p (String.ofList name)) :
      Resolves source root p name (.localVariable (String.ofList name))
  | methodCall (hc : ¬ ConstantForm name) (hd : ¬ Declared source root p (String.ofList name)) :
      Resolves source root p name (.methodCall (String.ofList name))

theorem declared_iff {root : Tree} (h : root.nodeAt? p = some u) :
    Declared source root p name ↔ name ∈ scopeLeft source (scopeBefore source .empty root p) u := by
  simp [Declared, mem_scopeLeft h, mem_introduced]

theorem resolves_ofName {root : Tree} (h : root.nodeAt? p = some u) (name : List Char) :
    Resolves source root p name
      (.ofName (scopeLeft source (scopeBefore source .empty root p) u) name) := by
  unfold Referent.ofName
  split_ifs with hc hd
  · exact .constant (isConstantName_iff.1 hc)
  · exact .localVariable (mt isConstantName_iff.2 hc) ((declared_iff h).2 hd)
  · exact .methodCall (mt isConstantName_iff.2 hc) (mt (declared_iff h).1 hd)

theorem assemble_of_shorthand {scope : Scope} {key : Tree} (h : shorthandKey? t = some key)
    (ns : List Node) :
    assemble source scope t ns = .plain t.kind t.span (ns ++ [entryValue source scope key]) := by
  have hr : t.kind ≠ "rescue" := by
    rw [(shorthandKey?_eq_some.1 h).1]; decide
  rw [assemble, if_neg hr, h]
  rfl

/-- The entry of a key without a value ends with what the key's name refers to there. -/
theorem shorthand_resolves {root t key : Tree} {p : Place} (ht : root.nodeAt? p = some t)
    (hk : t.kind = "pair") (hv : t.child? .value = none) (hkey : t.child? .key = some key) :
    ∃ before r, (Node.ofTree source root).nodeAt? p =
        some (.plain t.kind t.span (before ++ [.omittedValue key.span ⟨r, key.span⟩])) ∧
      Resolves source root p (keyName source key) r := by
  have hn : (Node.ofTree source root).nodeAt? p = some (.plain t.kind t.span
      (outlines source (scopeWithin source (scopeBefore source .empty root p) t) t.namedChildren ++
        [entryValue source (scopeLeft source (scopeBefore source .empty root p) t) key])) := by
    rw [Node.ofTree_eq_outline, nodeAt?_outline ht, outline,
      assemble_of_shorthand (shorthandKey?_eq_some.2 ⟨hk, hv, hkey⟩)]
  exact ⟨_, _, hn, resolves_ofName ht _⟩

/-! In `x = 1; f { |y| {x:} }` the key reads the variable of the scope around the block. -/

def readKey : Tree := .onFirstLine "hash_key_symbol" (some .key) 16 17 []

def readEntry : Tree := .onFirstLine "pair" none 16 18 [readKey]

def readInBlock : Tree :=
  .onFirstLine "program" none 0 21
    [.onFirstLine "assignment" none 0 5
      [.onFirstLine "identifier" (some .left) 0 1 [], .onFirstLine "integer" none 4 5 []],
     .onFirstLine "call" none 7 21
      [.onFirstLine "identifier" none 7 8 [],
       .onFirstLine "block" none 9 21
        [.onFirstLine "block_parameters" none 11 14 [.onFirstLine "identifier" none 12 13 []],
         .onFirstLine "block_body" none 15 19 [.onFirstLine "hash" none 15 19 [readEntry]]]]]

theorem shorthand_resolves_in_block :
    ∃ before r, (Node.ofTree (.ofString "x = 1; f { |y| {x:} }") readInBlock).nodeAt?
        [1, 1, 1, 0, 0] = some (.plain "pair" ⟨1, 16, 1, 18⟩
          (before ++ [.omittedValue ⟨1, 16, 1, 17⟩ ⟨r, ⟨1, 16, 1, 17⟩⟩])) ∧
      Resolves (.ofString "x = 1; f { |y| {x:} }") readInBlock [1, 1, 1, 0, 0]
        (keyName (.ofString "x = 1; f { |y| {x:} }") readKey) r :=
  shorthand_resolves (show readInBlock.nodeAt? [1, 1, 1, 0, 0] = some readEntry from rfl) rfl rfl
    (show readEntry.child? .key = some readKey from rfl)

end RubyInlay
