import RubyInlay.Proofs.Outline.Place

/-! What the outline takes over from the tree. Without the omitted values, the outline of a tree is
the tree of its visited nodes, each with its kind, its lines and its children in their order. An
omitted value stands behind the children of each entry without a value and nowhere else. -/

namespace RubyInlay

open Source

variable {source : Bytes} {scope : Scope} {t key : Tree}

/-! ### Outlines without omitted values -/

namespace Node

mutual

def withoutValues : Node → Node
  | plain kind span ns => plain kind span (allWithoutValues ns)
  | rescueClause exceptions span ns => rescueClause exceptions span (allWithoutValues ns)
  | omittedValue span value => omittedValue span value
  | expression value => expression value

/-- The nodes of a list that are no omitted values, and below them the same. -/
def allWithoutValues : List Node → List Node
  | [] => []
  | n :: ns =>
    if n.nodeClass = .omittedValue then allWithoutValues ns
    else withoutValues n :: allWithoutValues ns

end

@[simp] theorem allWithoutValues_nil : allWithoutValues [] = [] := by
  simp [allWithoutValues]

theorem allWithoutValues_cons (n : Node) (ns : List Node) :
    allWithoutValues (n :: ns) =
      if n.nodeClass = .omittedValue then allWithoutValues ns
      else n.withoutValues :: allWithoutValues ns := by
  rw [allWithoutValues]

theorem allWithoutValues_append (ms ns : List Node) :
    allWithoutValues (ms ++ ns) = allWithoutValues ms ++ allWithoutValues ns := by
  induction ms with
  | nil => simp
  | cons m ms ih =>
    rw [List.cons_append, allWithoutValues_cons, allWithoutValues_cons, ih]
    split_ifs <;> rfl

end Node

/-! ### Trees of visited nodes -/

/-- The texts in the first list of exceptions among some nodes. -/
def textsOfFirstList (source : Bytes) : List Tree → List String
  | [] => []
  | t :: ts =>
    if t.kind = "exceptions" then t.namedChildren.map (·.text source)
    else textsOfFirstList source ts

/-- The visited nodes of a tree, with nothing added to them. -/
def skeleton (source : Bytes) (t : Tree) : Node :=
  let lines : Span :=
    ⟨t.info.start.row + 1, t.info.start.column, t.info.stop.row + 1, t.info.stop.column⟩
  let below := t.namedChildren.attach.map fun ⟨c, hc⟩ =>
    have := Tree.size_lt_of_mem (Tree.mem_of_mem_namedChildren hc)
    skeleton source c
  if t.kind = "rescue" then .rescueClause (textsOfFirstList source t.namedChildren) lines below
  else .plain t.kind lines below
termination_by t.size
decreasing_by exact this

/-- An entry with a key and no value. -/
def LeavesOut (t key : Tree) : Prop :=
  t.kind = "pair" ∧ t.child? .key = some key ∧ t.child? .value = none

theorem skeleton_eq (t : Tree) : skeleton source t =
    if t.kind = "rescue" then
      .rescueClause (textsOfFirstList source t.namedChildren) t.span
        (t.namedChildren.map (skeleton source))
    else .plain t.kind t.span (t.namedChildren.map (skeleton source)) := by
  rw [skeleton]
  simp [Tree.span]

theorem listedExceptions_eq_textsOfFirstList (t : Tree) :
    listedExceptions source t = textsOfFirstList source t.namedChildren := by
  unfold listedExceptions
  induction t.namedChildren with
  | nil => rfl
  | cons c cs ih => by_cases hc : c.kind = "exceptions" <;> simp [textsOfFirstList, hc, ih]

theorem leavesOut_iff : LeavesOut t key ↔ shorthandKey? t = some key := by
  rw [shorthandKey?_eq_some, LeavesOut, and_comm (a := t.child? .key = some key)]

/-! ### Outlines and trees -/

theorem nodeClass_outline_ne (scope : Scope) (t : Tree) :
    (outline source scope t).nodeClass ≠ .omittedValue := by
  rw [outline, assemble]
  split_ifs <;> simp [Node.nodeClass]

/-- Without the value that is added, a node is assembled of its children without theirs. -/
theorem withoutValues_assemble (scope : Scope) (t : Tree) (ns : List Node) :
    (assemble source scope t ns).withoutValues =
      if t.kind = "rescue" then
        .rescueClause (textsOfFirstList source t.namedChildren) t.span (Node.allWithoutValues ns)
      else .plain t.kind t.span (Node.allWithoutValues ns) := by
  have hentry : Node.allWithoutValues
      ((shorthandKey? t).toList.map (entryValue source scope)) = [] := by
    cases shorthandKey? t with
    | none => simp
    | some key => simp [Node.allWithoutValues_cons, entryValue, Node.nodeClass]
  unfold assemble
  rw [← listedExceptions_eq_textsOfFirstList]
  split_ifs
  · rw [Node.withoutValues]
  · rw [Node.withoutValues, Node.allWithoutValues_append, hentry, List.append_nil]

theorem allWithoutValues_outlines {ts : List Tree}
    (hts : ∀ t ∈ ts, ∀ scope, (outline source scope t).withoutValues = skeleton source t)
    (scope : Scope) :
    Node.allWithoutValues (outlines source scope ts) = ts.map (skeleton source) := by
  induction ts generalizing scope with
  | nil => simp
  | cons t ts ih =>
    have hrest := ih (fun u hu => hts u (List.mem_cons_of_mem _ hu)) (scope.add (leaked source t))
    rw [outlines_cons, Node.allWithoutValues_cons, if_neg (nodeClass_outline_ne scope t),
      hts t List.mem_cons_self, hrest, List.map_cons]

theorem withoutValues_outline (scope : Scope) (t : Tree) :
    (outline source scope t).withoutValues = skeleton source t := by
  induction t using Tree.named_induction generalizing scope with
  | node t ih =>
    rw [outline, withoutValues_assemble, allWithoutValues_outlines ih, skeleton_eq]

/-! ### Places of omitted values -/

theorem referent_ofName_ne_other (scope : Scope) (name : List Char) (kind : String) :
    Referent.ofName scope name ≠ .other kind := by
  unfold Referent.ofName
  split_ifs <;> simp

/-- Below an omitted value there is its expression and no other omitted value. -/
theorem nodeAt?_entryValue {q : Place} {span : Span} {value : Expression}
    (h : (entryValue source scope key).nodeAt? q = some (.omittedValue span value)) : q = [] := by
  cases q with
  | nil => rfl
  | cons i q =>
    rw [Node.nodeAt?_cons, entryValue, Node.children] at h
    obtain ⟨n, hn, hq⟩ := Option.bind_eq_some_iff.1 h
    obtain rfl := List.mem_singleton.1 (List.mem_of_getElem? hn)
    cases q with
    | nil => cases hq
    | cons j q => simp [Node.nodeAt?_cons, Node.children] at hq

/-- An omitted value stands behind the children of an entry that leaves it out. -/
theorem exists_leavesOut {q : Place} {span : Span} {value : Expression}
    (h : (outline source scope t).nodeAt? q = some (.omittedValue span value)) :
    ∃ p u key, q = p ++ [u.namedChildren.length] ∧ t.nodeAt? p = some u ∧ LeavesOut u key := by
  induction q generalizing scope t with
  | nil =>
    have hn : outline source scope t = .omittedValue span value := by simpa using h
    exact absurd (by rw [hn]; rfl) (nodeClass_outline_ne scope t)
  | cons i q ih =>
    rw [outline, Node.nodeAt?_cons, children_assemble] at h
    obtain ⟨n, hn, hq⟩ := Option.bind_eq_some_iff.1 h
    by_cases hi : i < t.namedChildren.length
    · -- the place lies below a named child
      rw [List.getElem?_append_left (by rwa [length_outlines]), getElem?_outlines] at hn
      obtain ⟨c, hc, rfl⟩ := Option.map_eq_some_iff.1 hn
      obtain ⟨p, u, key, rfl, hu, hk⟩ := ih hq
      exact ⟨i :: p, u, key, rfl, Tree.nodeAt?_cons_eq_some.2 ⟨c, hc, hu⟩, hk⟩
    · -- the place is that of the value that the node itself leaves out
      rw [List.getElem?_append_right (by rw [length_outlines]; omega), length_outlines] at hn
      cases hk : shorthandKey? t with
      | none => simp [hk] at hn
      | some key =>
        have hlast : i - t.namedChildren.length = 0 := by
          by_contra hne
          rw [hk, Option.toList_some, List.map_singleton,
            List.getElem?_eq_none (by simp; omega)] at hn
          cases hn
        rw [hk, hlast] at hn
        cases hn
        obtain rfl := nodeAt?_entryValue hq
        exact ⟨[], t, key, by simp; omega, rfl, leavesOut_iff.2 hk⟩

/-- The outline of an entry that leaves its value out has it behind its children. -/
theorem children_outline_of_leavesOut (hk : LeavesOut t key) (scope : Scope) :
    (outline source scope t).children =
      outlines source (scopeWithin source scope t) t.namedChildren ++
        [entryValue source (scopeLeft source scope t) key] := by
  rw [outline, children_assemble, leavesOut_iff.1 hk]
  rfl

/-- An outline without its omitted values is the tree of the visited nodes. Each entry with a key
and no value has one omitted value, behind its other children and in the span of the key, and there
are no others. -/
theorem outline_preserves_tree (source : Bytes) (root : Tree) :
    (Node.ofTree source root).withoutValues = skeleton source root ∧
    (∀ p t key, root.nodeAt? p = some t → LeavesOut t key →
      ∃ n ns value, (Node.ofTree source root).nodeAt? p = some n ∧
        n.children = ns ++ [.omittedValue key.span value] ∧ ns.length = t.namedChildren.length ∧
        value.span = key.span ∧ ∀ kind, value.referent ≠ .other kind) ∧
    ∀ q span value, (Node.ofTree source root).nodeAt? q = some (.omittedValue span value) →
      ∃ p t key, q = p ++ [t.namedChildren.length] ∧ root.nodeAt? p = some t ∧ LeavesOut t key := by
  rw [Node.ofTree_eq_outline]
  refine ⟨withoutValues_outline .empty root, fun p t key ht hk => ?_,
    fun q span value h => exists_leavesOut h⟩
  exact ⟨_, _, _, nodeAt?_outline ht, children_outline_of_leavesOut hk _, length_outlines _ _, rfl,
    fun kind => referent_ofName_ne_other _ _ kind⟩

/-! In `{a: {b:}}` the value of the outer entry is a hash whose entry has none. -/

def nestedKey : Tree := .onFirstLine "hash_key_symbol" (some .key) 5 6 []

def nestedEntry : Tree := .onFirstLine "pair" none 5 7 [nestedKey]

def entryInValue : Tree :=
  .onFirstLine "program" none 0 9
    [.onFirstLine "hash" none 0 9
      [.onFirstLine "pair" none 1 8
        [.onFirstLine "hash_key_symbol" (some .key) 1 2 [],
         .onFirstLine "hash" (some .value) 4 8 [nestedEntry]]]]

theorem nested_entry_has_omitted_value :
    let built := Node.ofTree (.ofString "{a: {b:}}") entryInValue
    entryInValue.nodeAt? [0, 0, 1, 0] = some nestedEntry ∧ LeavesOut nestedEntry nestedKey ∧
    (∃ n ns value, built.nodeAt? [0, 0, 1, 0] = some n ∧
      n.children = ns ++ [.omittedValue nestedKey.span value] ∧ ns.length = 1 ∧
      value.span = nestedKey.span ∧ ∀ kind, value.referent ≠ .other kind) ∧
    ∃ value, built.nodeAt? [0, 0, 1, 0, 1] = some (.omittedValue nestedKey.span value) ∧
      ∃ p t key, [0, 0, 1, 0, 1] = p ++ [t.namedChildren.length] ∧
        entryInValue.nodeAt? p = some t ∧ LeavesOut t key := by
  intro built
  have hn : entryInValue.nodeAt? [0, 0, 1, 0] = some nestedEntry := rfl
  have hk : LeavesOut nestedEntry nestedKey := ⟨rfl, rfl, rfl⟩
  have ⟨_, hbehind, honly⟩ := outline_preserves_tree (.ofString "{a: {b:}}") entryInValue
  obtain ⟨n, ns, value, hat, hchildren, hlength, hvalue⟩ := hbehind _ _ _ hn hk
  have hlast : built.nodeAt? ([0, 0, 1, 0] ++ [1]) =
      some (.omittedValue nestedKey.span value) := by
    have hone : ns.length = 1 := hlength
    rw [Node.nodeAt?_append, hat, Option.bind_some, Node.nodeAt?_cons, hchildren, ← hone]
    simp
  exact ⟨hn, hk, ⟨n, ns, value, hat, hchildren, hlength, hvalue⟩, value, hlast, honly _ _ _ hlast⟩

end RubyInlay
