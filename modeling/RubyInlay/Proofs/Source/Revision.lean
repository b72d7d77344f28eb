import RubyInlay.Proofs.Source.Introduction
import RubyInlay.Source.Scope

/-! Revisions of a tree. A revision puts other children below one node that opens a scope and keeps
all else. A search for variables looks at such a node and not into it, unless the node is an entry
of a group of parameters, which is read through its name. Main statement: a revision anywhere else
leaves the variables of every construct as they are. -/

namespace RubyInlay.Source

/-- The kinds whose entries are parameters. -/
def parameterGroups : List String :=
  ["method_parameters", "block_parameters", "lambda_parameters", "destructured_parameter"]

/-- A node that opens a scope is of none of the kinds that open none. -/
theorem notMem_of_opening {k : String} {ks : List String} (h : (Opening.ofKind? k).isSome)
    (hks : ∀ k ∈ ks, Opening.ofKind? k = none) : k ∉ ks := by
  intro hk
  simp [hks k hk] at h

theorem ne_of_opening {k k' : String} (h : (Opening.ofKind? k).isSome)
    (hk : Opening.ofKind? k' = none) : k ≠ k' := by
  rintro rfl
  simp [hk] at h

theorem introduced_of_opening {source : Bytes} {t : Tree}
    (h : (Opening.ofKind? t.kind).isSome) : introduced source t = [] := by
  have hn : Binder.ofKind? t.kind = none := by
    rw [Option.eq_none_iff_forall_ne_some]
    intro b hb
    exact notMem_of_opening h (by cases b <;> decide) (Binder.ofKind?_eq_some.1 hb)
  rw [introduced, hn]

namespace Tree

/-- Changes one named child, counted among the named ones. -/
def modifyNamed (f : Tree → Tree) : Nat → List Tree → List Tree
  | _, [] => []
  | 0, t :: ts => if t.info.named then f t :: ts else t :: modifyNamed f 0 ts
  | i + 1, t :: ts =>
    if t.info.named then t :: modifyNamed f i ts else t :: modifyNamed f (i + 1) ts

/-- The tree with other nodes below the visited node at a place. -/
def replaceBelow : Tree → Place → List Tree → Tree
  | t, [], new => node t.info new
  | t, i :: p, new => node t.info (modifyNamed (replaceBelow · p new) i t.children)

/-- `Revised p t t'`: the trees differ in the children of the node at `p`, which opens a scope and
is no entry of a group of parameters. -/
inductive Revised : Place → Tree → Tree → Prop
  | here {info : Info} {old new : List Tree} (ho : (Opening.ofKind? info.kind).isSome) :
      Revised [] (node info old) (node info new)
  | child {info : Info} {before after : List Tree} {c c' : Tree} {p : Place} (hc : c.info.named)
      (hp : p = [] → info.kind ∉ parameterGroups) (h : Revised p c c') :
      Revised ((before.filter (·.info.named)).length :: p) (node info (before ++ c :: after))
        (node info (before ++ c' :: after))

variable {source : Bytes} {info : Info} {before after ts : List Tree} {t t' c c' m : Tree}
  {i : Nat} {p : Place} {f : Field} {α : Type}

theorem Revised.info_eq (h : Revised p t t') : t'.info = t.info := by
  cases h <;> rfl

/-- A named child stands between those before it and those behind it. -/
theorem exists_between (h : (ts.filter (·.info.named))[i]? = some c) :
    ∃ before after, ts = before ++ c :: after ∧ (before.filter (·.info.named)).length = i ∧
      ∀ f, modifyNamed f i ts = before ++ f c :: after := by
  induction ts generalizing i with
  | nil => simp at h
  | cons t ts ih =>
    by_cases hn : t.info.named
    · simp only [List.filter_cons, hn, if_true] at h
      cases i with
      | zero =>
        obtain rfl : t = c := by simpa using h
        exact ⟨[], ts, rfl, rfl, fun f => by simp [modifyNamed, hn]⟩
      | succ i =>
        obtain ⟨before, after, rfl, hi, hf⟩ := ih h
        exact ⟨t :: before, after, rfl, by simp [hn, hi], fun f => by simp [modifyNamed, hn, hf]⟩
    · simp only [List.filter_cons, hn] at h
      obtain ⟨before, after, rfl, hi, hf⟩ := ih h
      refine ⟨t :: before, after, rfl, by simp [hn, hi], fun f => ?_⟩
      cases i <;> simp [modifyNamed, hn, hf]

theorem revised_replaceBelow {new : List Tree} (hm : t.nodeAt? p = some m)
    (ho : (Opening.ofKind? m.kind).isSome)
    (hp : ∀ u, t.nodeAt? p.dropLast = some u → u.kind ∉ parameterGroups) :
    Revised p t (t.replaceBelow p new) := by
  induction p generalizing t with
  | nil =>
    cases hm
    cases m with
    | node info ts => exact .here ho
  | cons i p ih =>
    obtain ⟨c, hc, hm⟩ := nodeAt?_cons_eq_some.1 hm
    obtain ⟨before, after, hts, hi, hf⟩ := exists_between hc
    have hcm := (List.mem_filter.1 (List.mem_of_getElem? hc)).2
    have hbelow : Revised p c (c.replaceBelow p new) := by
      refine ih hm fun u hu => ?_
      cases p with
      -- from `c` on there is nothing above the revised node, so `u` is that node
      | nil =>
        obtain rfl : m = u := Option.some.inj (hm.symm.trans hu)
        exact notMem_of_opening ho (by decide)
      | cons j p => exact hp u (nodeAt?_cons_eq_some.2 ⟨c, hc, hu⟩)
    have hgroup : p = [] → t.kind ∉ parameterGroups := by
      rintro rfl
      exact hp t rfl
    rw [replaceBelow, hf, ← hi]
    nth_rewrite 1 [← node_eta t]
    rw [hts]
    exact .child hcm hgroup hbelow

/-! ### Readings -/

/-- Two nodes that say the same of themselves, and whose children `g` does not tell apart. -/
structure Alike (g : Tree → α) (t t' : Tree) : Prop where
  info : t'.info = t.info
  named : t'.namedChildren.map g = t.namedChildren.map g
  field : ∀ f, (t'.child? f).map g = (t.child? f).map g

theorem alike_of_child {g : Tree → α} (hi : c'.info = c.info) (hg : g c' = g c) :
    Alike g (node info (before ++ c :: after)) (node info (before ++ c' :: after)) where
  info := rfl
  named := by
    by_cases hn : c.info.named <;> simp [namedChildren, hi, hn, hg]
  field f := by
    simp only [child?, children_node, List.find?_append, List.find?_cons, hi]
    cases before.find? (·.info.field == some f) with
    | some b => rfl
    | none => cases c.info.field == some f <;> simp [hg]

namespace Alike

theorem kind {g : Tree → α} (h : Alike g t t') : t'.kind = t.kind := congrArg Info.kind h.info

theorem text {g : Tree → α} (h : Alike g t t') : t'.text source = t.text source := by
  simp [Tree.text, chars, h.info]

theorem flatMap_named {g : Tree → List α} (h : Alike g t t') :
    t'.namedChildren.flatMap g = t.namedChildren.flatMap g := by
  rw [List.flatMap_def, h.named, List.flatMap_def]

theorem flatMap_field {g : Tree → List α} (h : Alike g t t') (f : Field) :
    (t'.child? f).toList.flatMap g = (t.child? f).toList.flatMap g := by
  rw [List.flatMap_def, ← Option.toList_map, h.field, Option.toList_map, List.flatMap_def]

theorem field_eq_none {g : Tree → α} (h : Alike g t t') {f : Field} :
    t'.child? f = none ↔ t.child? f = none := by
  rw [← Option.map_eq_none_iff (f := g), h.field, Option.map_eq_none_iff]

end Alike

end Tree

open RubyInlay.Source.Tree

variable {source : Bytes} {info : Info} {before after : List Tree} {t t' c c' : Tree} {p : Place}

/-! ### Searches -/

theorem bound_eq {role : (t : Tree) → Role t} (t : Tree) :
    bound role t = (role t).names ++ (role t).parts.flatMap (bound role) := by
  cases h : role t with
  | binds ns => simp [bound_of_binds h]
  | through ps inside => simp [bound_of_through h, Role.names, Role.parts]

/-- A search finds the same in two nodes that have the same names and look into parts in which it
finds the same. -/
theorem bound_congr {role : (t : Tree) → Role t} (hn : (role t').names = (role t).names)
    (hp : (role t').parts.map (bound role) = (role t).parts.map (bound role)) :
    bound role t' = bound role t := by
  rw [bound_eq, hn, List.flatMap_def, hp, ← List.flatMap_def, ← bound_eq]

theorem bound_targetRole_congr (h : Alike (bound (targetRole source)) t t') :
    bound (targetRole source) t' = bound (targetRole source) t := by
  apply bound_congr <;> simp only [targetRole, h.kind]
  · split_ifs <;> simp [h.text]
  · split_ifs <;> simp [h.named]

theorem names_entryRole (t : Tree) : (entryRole source t).names =
    if t.child? .value = none then ((t.child? .key).map (keyVariable source)).toList else [] := by
  unfold entryRole
  cases t.child? .value <;> simp [Option.toList_map]

theorem parts_entryRole (t : Tree) : (entryRole source t).parts = (t.child? .value).toList := by
  unfold entryRole
  cases h : t.child? .value <;> simp [h]

theorem bound_patternRole_congr (h : Alike (bound (patternRole source)) t t')
    (hkey : Alike (keyVariable source) t t') :
    bound (patternRole source) t' = bound (patternRole source) t := by
  apply bound_congr <;> simp only [patternRole, h.kind]
  · split_ifs with hi hk
    · simp [h.text]
    · simp only [names_entryRole, h.field_eq_none, hkey.field]
    all_goals rfl
  · split_ifs with hi hk ha hs hc
    · rfl
    · simp only [parts_entryRole, ← Option.toList_map, h.field]
    · simp [List.map_filterMap, h.field]
    · simp [List.map_filterMap, h.field]
    · exact h.named
    · rfl

/-- The name of a node that is a variable. -/
def identifierName (source : Bytes) (t : Tree) : List String :=
  if t.kind = "identifier" then [t.text source] else []

theorem parameterName_eq (t : Tree) :
    parameterName source t = (t.child? .name).toList.flatMap (identifierName source) := by
  unfold parameterName
  cases t.child? .name <;> simp [identifierName]

theorem names_parameterRole_congr (h : Alike (identifierName source) t t') :
    (parameterRole source t').names = (parameterRole source t).names := by
  simp only [parameterRole, h.kind]
  split_ifs
  · simp [h.text]
  · rfl
  · simp only [Role.names_binds, parameterName_eq, h.flatMap_field]

theorem bound_parameterRole_congr (h : Alike (identifierName source) t t')
    (hd : t.kind = "destructured_parameter" → Alike (bound (parameterRole source)) t t') :
    bound (parameterRole source) t' = bound (parameterRole source) t := by
  refine bound_congr (names_parameterRole_congr h) ?_
  simp only [parameterRole, h.kind]
  split_ifs with hi hk
  · rfl
  · exact (hd hk).named
  · rfl

/-! ### Named groups -/

/-- The named groups of a regular expression of fixed text. -/
def groups (source : Bytes) (t : Tree) : List String :=
  if t.kind = "regex" ∧ ¬ t.namedChildren.any (·.kind == "interpolation") then
    (NamedGroup.names (t.chars source)).map String.ofList
  else []

theorem captures_eq (t : Tree) : captures source t =
    if (t.child? .operator).map (·.kind) = some "=~" then
      (t.child? .left).toList.flatMap (groups source)
    else [] := by
  unfold captures
  cases t.child? .operator with
  | none => simp
  | some o =>
    cases t.child? .left with
    | none => simp
    | some l => by_cases ho : o.kind = "=~" <;> simp [ho, groups]

theorem captures_congr (h : Alike (groups source) t t') (hk : Alike (·.kind) t t') :
    captures source t' = captures source t := by
  simp only [captures_eq, hk.field, h.flatMap_field]

theorem groups_congr (h : Alike (·.kind) t t') : groups source t' = groups source t := by
  have hany (t : Tree) : t.namedChildren.any (·.kind == "interpolation") =
      (t.namedChildren.map (·.kind)).any (· == "interpolation") := by
    simp [List.any_map, Function.comp_def]
  simp only [groups, h.kind, hany, h.named, chars, h.info]

/-! ### Revisions -/

theorem Tree.Revised.bound_targetRole_eq (h : Revised p t t') :
    bound (targetRole source) t' = bound (targetRole source) t := by
  induction h with
  | @here info old new ho =>
    have hi (ts : List Tree) : (node info ts).kind ≠ "identifier" := ne_of_opening ho (by decide)
    have hl (ts : List Tree) : (node info ts).kind ∉ targetLists := notMem_of_opening ho (by decide)
    apply bound_congr <;> simp [targetRole, hi, hl]
  | child _ _ h ih => exact bound_targetRole_congr (alike_of_child h.info_eq ih)

theorem Tree.Revised.bound_patternRole_eq (h : Revised p t t') :
    bound (patternRole source) t' = bound (patternRole source) t := by
  induction h with
  | @here info old new ho =>
    have hs (ts : List Tree) : (node info ts).kind ∉ ["identifier", "keyword_pattern", "as_pattern",
      "splat_parameter", "hash_splat_parameter"] := notMem_of_opening ho (by decide)
    have hc (ts : List Tree) : (node info ts).kind ∉ patternContainers :=
      notMem_of_opening ho (by decide)
    simp only [List.mem_cons, List.not_mem_nil, or_false, not_or] at hs
    apply bound_congr <;> simp [patternRole, hs, hc]
  | child _ _ h ih =>
    exact bound_patternRole_congr (alike_of_child h.info_eq ih)
      (alike_of_child h.info_eq (by simp [keyVariable, chars, h.info_eq]))

theorem Tree.Revised.bound_parameterRole_eq (h : Revised p t t') (hp : p ≠ []) :
    bound (parameterRole source) t' = bound (parameterRole source) t := by
  induction h with
  | here ho => exact absurd rfl hp
  | @child info before after c c' p hc hg h ih =>
    have hname : identifierName source c' = identifierName source c := by
      simp [identifierName, kind, text, chars, h.info_eq]
    refine bound_parameterRole_congr (alike_of_child h.info_eq hname) fun hd => ?_
    refine alike_of_child h.info_eq (ih ?_)
    -- the revised node itself would be a member of the group
    rintro rfl
    exact hg rfl (by rw [show info.kind = _ from hd]; decide)

theorem Tree.Revised.groups_eq (h : Revised p t t') : groups source t' = groups source t := by
  cases h with
  | @here info old new ho =>
    have hr (ts : List Tree) : (node info ts).kind ≠ "regex" := ne_of_opening ho (by decide)
    simp [groups, hr]
  | child _ _ h => exact groups_congr (alike_of_child h.info_eq (by simp [kind, h.info_eq]))

/-- A revision leaves the variables of a construct as they are. -/
theorem Tree.Revised.introduced_eq (h : Revised p t t') :
    introduced source t' = introduced source t := by
  cases h with
  | @here info old new ho =>
    have ho (ts : List Tree) : (Opening.ofKind? (node info ts).kind).isSome := ho
    rw [introduced_of_opening (ho new), introduced_of_opening (ho old)]
  | @child info before after c c' p hc hg h =>
    have alike {α : Type} {g : Tree → α} (hg : g c' = g c) :
        Alike g (node info (before ++ c :: after)) (node info (before ++ c' :: after)) :=
      alike_of_child h.info_eq hg
    have htarget : Alike (bound (targetRole source)) _ _ := alike h.bound_targetRole_eq
    unfold introduced
    rw [htarget.kind]
    cases hb : Binder.ofKind? (node info (before ++ c :: after)).kind with
    | none => rfl
    | some b =>
      cases b with
      | assignment => exact htarget.flatMap_field .left
      | parameters =>
        refine (alike (h.bound_parameterRole_eq ?_)).flatMap_named
        rintro rfl
        exact hg rfl (List.mem_append_left ["destructured_parameter"]
          (Binder.ofKind?_eq_some.1 hb))
      | exceptionVariable => exact htarget.flatMap_named
      | loop => exact htarget.flatMap_field .pattern
      | pattern => exact (alike h.bound_patternRole_eq).flatMap_field .pattern
      | binary =>
        exact captures_congr (alike h.groups_eq) (alike (by simp [kind, h.info_eq]))

end RubyInlay.Source
