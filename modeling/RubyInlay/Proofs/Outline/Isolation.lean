import RubyInlay.Proofs.Outline.Place
import RubyInlay.Proofs.Source.Revision

/-! Scopes keep to themselves. A node that opens a scope adds no name to the scope around it, and a
closed scope takes none from it. Main statement: what is built for a closed scope is what is built
for it alone, and other children below a node that opens a scope change nothing outside the node. -/

namespace RubyInlay

open Source Source.Tree

/-- The outline with another node at a place. -/
def Node.replaceAt : Node → Place → Node → Node
  | _, [], new => new
  | .plain kind span children, i :: p, new =>
    .plain kind span (children.modify i (replaceAt · p new))
  | .rescueClause exceptions span children, i :: p, new =>
    .rescueClause exceptions span (children.modify i (replaceAt · p new))
  | .omittedValue span value, _ :: _, _ => .omittedValue span value
  | .expression value, _ :: _, _ => .expression value

variable {source : Bytes} {scope : Scope} {t t' c c' m : Tree} {p : Place}

/-! ### Closed scopes -/

theorem scopeWithin_of_closed (h : Opening.ofKind? m.kind = some .closed) :
    scopeWithin source scope m = scopeWithin source .empty m := by
  simp [scopeWithin, h, Scope.enter]

/-- The outline of a closed scope does not depend on the scope around it. -/
theorem outline_of_closed (h : Opening.ofKind? m.kind = some .closed) :
    outline source scope m = outline source .empty m := by
  rw [outline, outline, scopeLeft, scopeLeft, scopeWithin_of_closed h]

/-! ### Nodes alike -/

theorem leaked_congr (h : Alike (leaked source) t t')
    (hi : introduced source t' = introduced source t) : leaked source t' = leaked source t := by
  rw [leaked, leaked, h.kind, hi, leakedAll_eq, h.named, ← leakedAll_eq]

/-- The exceptions of a list of exceptions. -/
def exceptionNames (source : Bytes) (t : Tree) : Option (List String) :=
  if t.kind = "exceptions" then some (t.namedChildren.map (·.text source)) else none

theorem listedExceptions_eq (t : Tree) :
    listedExceptions source t = (t.namedChildren.findSome? (exceptionNames source)).getD [] := by
  unfold listedExceptions
  induction t.namedChildren with
  | nil => rfl
  | cons c cs ih => by_cases hc : c.kind = "exceptions" <;> simp [exceptionNames, hc, ih]

theorem listedExceptions_congr (h : Alike (exceptionNames source) t t') :
    listedExceptions source t' = listedExceptions source t := by
  have hid (ts : List Tree) : ts.findSome? (exceptionNames source) =
      (ts.map (exceptionNames source)).findSome? id := by
    simp [List.findSome?_map]
  rw [listedExceptions_eq, listedExceptions_eq, hid, h.named, ← hid]

theorem shorthandKey?_congr (h : Alike (entryValue source scope) t t') :
    (shorthandKey? t').map (entryValue source scope) =
      (shorthandKey? t).map (entryValue source scope) := by
  simp only [shorthandKey?, h.kind, h.field_eq_none]
  split_ifs
  · exact h.field .key
  · rfl

theorem assemble_congr (he : Alike (exceptionNames source) t t')
    (hk : Alike (entryValue source scope) t t') (ns : List Node) :
    assemble source scope t' ns = assemble source scope t ns := by
  have hspan : t'.span = t.span := by
    rw [Tree.span, hk.info, Tree.span]
  unfold assemble
  rw [hk.kind, hspan, listedExceptions_congr he, ← Option.toList_map, shorthandKey?_congr hk,
    Option.toList_map]

/-! ### Revisions -/

namespace Source.Tree.Revised

theorem leaked_eq (h : Revised p t t') : leaked source t' = leaked source t := by
  induction h with
  | @here info old new ho =>
    have ho (ts : List Tree) : (Opening.ofKind? (node info ts).kind).isSome := ho
    rw [leaked, leaked, if_pos (ho new), if_pos (ho old)]
  | child hc hg h ih =>
    exact leaked_congr (alike_of_child h.info_eq ih) (Revised.child hc hg h).introduced_eq

theorem scopeWithin_eq (h : Revised p t t') (scope : Scope) :
    scopeWithin source scope t' = scopeWithin source scope t := by
  rw [scopeWithin, scopeWithin, h.introduced_eq, kind, kind, h.info_eq]

theorem exceptionNames_eq (h : Revised p t t') :
    exceptionNames source t' = exceptionNames source t := by
  cases h with
  | @here info old new ho =>
    have hk (ts : List Tree) : (node info ts).kind ≠ "exceptions" := ne_of_opening ho (by decide)
    simp [exceptionNames, hk]
  | @child info before after c c' p _ _ h =>
    have ht : c'.text source = c.text source := by simp [text, chars, h.info_eq]
    have ha : Alike (·.text source) (node info (before ++ c :: after))
      (node info (before ++ c' :: after)) := alike_of_child h.info_eq ht
    simp only [exceptionNames, ha.named, ha.kind]

theorem entryValue_eq (h : Revised p t t') (scope : Scope) :
    entryValue source scope t' = entryValue source scope t := by
  simp [entryValue, keyName, chars, span, h.info_eq]

end Source.Tree.Revised

theorem outlines_append (scope : Scope) (ts us : List Tree) :
    outlines source scope (ts ++ us) =
      outlines source scope ts ++ outlines source (scope.add (leakedAll source ts)) us := by
  induction ts generalizing scope with
  | nil => simp
  | cons t ts ih => simp [ih]

theorem modify_append_cons {α : Type} (f : α → α) (xs ys : List α) (x : α) :
    (xs ++ x :: ys).modify xs.length f = xs ++ f x :: ys := by
  induction xs with
  | nil => rfl
  | cons y xs ih => simp [ih]

theorem replaceAt_assemble {new n : Node} {ns ms : List Node} :
    (assemble source scope t (ns ++ n :: ms)).replaceAt (ns.length :: p) new =
      assemble source scope t (ns ++ n.replaceAt p new :: ms) := by
  unfold assemble
  split
  · simp [Node.replaceAt, modify_append_cons]
  · simp [Node.replaceAt, modify_append_cons]

theorem namedChildren_between {info : Info} {before after : List Tree} (hc : c.info.named) :
    (node info (before ++ c :: after)).namedChildren =
      before.filter (·.info.named) ++ c :: after.filter (·.info.named) := by
  simp [namedChildren, hc]

/-- A revision changes the outline at its place only. -/
theorem outline_revised (h : Revised p t t') (scope : Scope) :
    ∃ new, outline source scope t' = (outline source scope t).replaceAt p new := by
  induction h generalizing scope with
  | @here info old new ho => exact ⟨outline source scope (node info new), rfl⟩
  | @child info before after c c' p hc hg h ih =>
    have hr : Revised _ (node info (before ++ c :: after)) (node info (before ++ c' :: after)) :=
      .child hc hg h
    have hc' : c'.info.named := by rw [h.info_eq, hc]
    obtain ⟨new, hnew⟩ := ih ((scopeWithin source scope (node info (before ++ c :: after))).add
      (leakedAll source (before.filter (·.info.named))))
    refine ⟨new, ?_⟩
    have hleft : scopeLeft source scope (node info (before ++ c' :: after)) =
        scopeLeft source scope (node info (before ++ c :: after)) := by
      rw [scopeLeft, scopeLeft, hr.scopeWithin_eq, leakedAll_eq, leakedAll_eq,
        (alike_of_child h.info_eq h.leaked_eq).named]
    rw [outline, outline, hleft, hr.scopeWithin_eq,
      assemble_congr (alike_of_child h.info_eq h.exceptionNames_eq)
        (alike_of_child h.info_eq (h.entryValue_eq _)),
      namedChildren_between hc, namedChildren_between hc']
    simp only [outlines_append, outlines_cons, h.leaked_eq, hnew]
    nth_rewrite 1 [← length_outlines]
    rw [replaceAt_assemble]

/-! ### Two runs -/

/-- A closed scope is built as if alone, and what stands below a node that opens a scope shows
nowhere else. -/
theorem scope_isolated {root : Tree} (hm : root.nodeAt? p = some m) :
    (Opening.ofKind? m.kind = some .closed →
      (Node.ofTree source root).nodeAt? p = some (Node.ofTree source m)) ∧
    ((Opening.ofKind? m.kind).isSome →
      (∀ u, root.nodeAt? p.dropLast = some u → u.kind ∉ parameterGroups) →
        ∀ children, ∃ new, Node.ofTree source (root.replaceBelow p children) =
          (Node.ofTree source root).replaceAt p new) := by
  constructor
  · intro ho
    rw [Node.ofTree_eq_outline, Node.ofTree_eq_outline, nodeAt?_outline hm, outline_of_closed ho]
  · intro ho hp children
    rw [Node.ofTree_eq_outline, Node.ofTree_eq_outline]
    exact outline_revised (revised_replaceBelow hm ho hp) .empty

/-! In `x = 1; def f; g(x:); end` the key `x` stands in a method and does not see the variable. -/

def methodSource : Bytes := .ofString "x = 1; def f; g(x:); end"

def methodWithKey : Tree :=
  .onFirstLine "method" none 7 24
    [.onFirstLine "identifier" (some .name) 11 12 [],
     .onFirstLine "body_statement" none 14 19
      [.onFirstLine "call" none 14 19
        [.onFirstLine "identifier" none 14 15 [],
         .onFirstLine "argument_list" none 15 19
          [.onFirstLine "pair" none 16 18
            [.onFirstLine "hash_key_symbol" (some .key) 16 17 []]]]]]

def methodAfterAssignment : Tree :=
  .onFirstLine "program" none 0 24
    [.onFirstLine "assignment" none 0 5
      [.onFirstLine "identifier" (some .left) 0 1 [], .onFirstLine "integer" none 4 5 []],
     methodWithKey]

theorem method_isolated :
    (Node.ofTree methodSource methodAfterAssignment).nodeAt? [1] =
        some (Node.ofTree methodSource methodWithKey) ∧
      ∃ new, Node.ofTree methodSource (methodAfterAssignment.replaceBelow [1] []) =
        (Node.ofTree methodSource methodAfterAssignment).replaceAt [1] new := by
  have hm : methodAfterAssignment.nodeAt? [1] = some methodWithKey := rfl
  refine ⟨(scope_isolated hm).1 rfl, (scope_isolated hm).2 rfl ?_ []⟩
  intro u hu
  obtain rfl : methodAfterAssignment = u := Option.some.inj hu
  decide

end RubyInlay
