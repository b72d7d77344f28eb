import Mathlib.Data.List.Forall2
import RubyInlay.Proofs.Outline.Declaration
import RubyInlay.Proofs.Outline.Resolution

/-! The scopes of a walk. A scope goes by the place of the node that opens it, so the path of a walk
says which scopes are in sight of its next step and of those that nodes on it have saved. A walk keeps
scopes by their names; that all it keeps of one scope is the same is seen by reading them off one
store, in which each scope holds what the constructs entered so far introduce into it. Main statement:
each step of a walk keeps its scopes in that order, no scope loses a name, and a node that is left
gives back the scope that it was entered in, with the names that its subtree introduces there. -/

namespace RubyInlay

open Source Relation

variable {source : Bytes} {root c : Tree} {s : Scope} {u v : Unfinished} {us vs : List Unfinished}
  {x : Option Place} {p q : Place} {name : String}

/-! ### Scopes of a path -/

/-- The place next to be entered below a path, the innermost node first: of each node on it, as many
children have been left as have outlines. -/
def placeBelow (path : List Unfinished) : Place :=
  (path.map (·.built.length)).reverse

@[simp] theorem placeBelow_nil : placeBelow [] = [] := rfl

@[simp] theorem placeBelow_cons (u : Unfinished) (us : List Unfinished) :
    placeBelow (u :: us) = placeBelow us ++ [u.built.length] := by
  simp [placeBelow]

@[simp] theorem length_placeBelow (path : List Unfinished) :
    (placeBelow path).length = path.length := by
  simp [placeBelow]

/-- The scopes in sight below a path, the innermost first. A closed scope begins a chain of its own, a
nested one goes on with the chain that it is opened in. -/
def chainOf : List Unfinished → List (Option Place)
  | [] => [none]
  | u :: us =>
    match Opening.ofKind? u.tree.kind with
    | some .closed => [some (placeBelow us)]
    | some .nested => some (placeBelow us) :: chainOf us
    | none => chainOf us

/-- A scope on the chain of a path has been opened by a node on the path. -/
theorem length_lt_of_mem_chainOf (h : some q ∈ chainOf us) : q.length < us.length := by
  induction us with
  | nil => simp [chainOf] at h
  | cons u us ih =>
    unfold chainOf at h
    split at h
    · simp_all
    · rcases List.mem_cons.1 h with h | h
      · cases h; simp
      · exact Nat.lt_succ_of_lt (ih h)
    · exact Nat.lt_succ_of_lt (ih h)

theorem placeBelow_notMem_chainOf (h : vs.length ≤ us.length) :
    some (placeBelow us) ∉ chainOf vs := by
  intro hmem
  have hlt := length_lt_of_mem_chainOf hmem
  rw [length_placeBelow] at hlt
  omega

theorem nodup_chainOf (us : List Unfinished) : (chainOf us).Nodup := by
  induction us with
  | nil => simp [chainOf]
  | cons u us ih =>
    unfold chainOf
    split
    · simp
    · exact List.nodup_cons.2 ⟨placeBelow_notMem_chainOf (Nat.le_refl _), ih⟩
    · exact ih

/-- The innermost scope of a path is not in sight around a node on it that has opened a scope. -/
theorem head_notMem_chainOf (h : v :: vs <:+ us) (ho : (Opening.ofKind? v.tree.kind).isSome)
    (hx : (chainOf us).head? = some x) : x ∉ chainOf vs := by
  induction us with
  | nil => simp at h
  | cons u us ih =>
    unfold chainOf at hx
    cases hu : Opening.ofKind? u.tree.kind with
    | none =>
      rcases List.suffix_cons_iff.1 h with h | h
      · cases h
        simp [hu] at ho
      · exact ih h (by simpa [hu] using hx)
    | some o =>
      have hplace : x = some (placeBelow us) := by cases o <;> simp_all
      have hlength : vs.length ≤ us.length := Nat.le_of_succ_le_succ h.length_le
      exact hplace ▸ placeBelow_notMem_chainOf hlength

/-- A property of a node and the path around it holds for each node of a path. -/
def AlongPath (P : Unfinished → List Unfinished → Prop) : List Unfinished → Prop
  | [] => True
  | u :: us => P u us ∧ AlongPath P us

theorem AlongPath.of_suffix {P : Unfinished → List Unfinished → Prop} (h : AlongPath P us)
    (hv : v :: vs <:+ us) : P v vs := by
  induction us with
  | nil => simp at hv
  | cons u us ih =>
    rcases List.suffix_cons_iff.1 hv with hv | hv
    · cases hv
      exact h.1
    · exact ih h.2 hv

theorem AlongPath.imp {P Q : Unfinished → List Unfinished → Prop} (h : AlongPath P us)
    (hpq : ∀ v vs, v :: vs <:+ us → P v vs → Q v vs) : AlongPath Q us := by
  induction us with
  | nil => trivial
  | cons u us ih =>
    exact ⟨hpq u us List.suffix_rfl h.1,
      ih h.2 fun v vs hv => hpq v vs (hv.trans (List.suffix_cons u us))⟩

/-- The nodes of a path stand in a tree, each at the place that the nodes around it say. -/
def Standing (root : Tree) : List Unfinished → Prop :=
  AlongPath fun u us => root.nodeAt? (placeBelow us) = some u.tree

/-- The chain of a path begins with the innermost scope around its last node. -/
theorem head?_chainOf (h : Standing root (u :: us)) :
    (chainOf (u :: us)).head? = some (root.scopeOf (placeBelow us)) := by
  have hu := h.1
  induction us generalizing u with
  | nil =>
    rw [placeBelow_nil, Tree.nodeAt?_nil, Option.some.injEq] at hu
    rw [placeBelow_nil, Tree.scopeOf_nil, chainOf, hu]
    split <;> simp_all [chainOf]
  | cons v vs ih =>
    have hv := ih h.2 h.2.1
    rw [placeBelow_cons] at hu ⊢
    rw [Tree.scopeOf_concat hu, chainOf]
    split <;> simp_all

/-! ### What scopes hold -/

/-- Some construct before the place `e` introduces the name into the scope `x`. -/
def HeldAt (source : Bytes) (root : Tree) (e : Place) (x : Option Place) (name : String) : Prop :=
  ∃ d b, root.nodeAt? d = some b ∧ d < e ∧ root.scopeOf d = x ∧ ∃ o, Introduces source b o name

theorem heldAt_concat_zero (hc : root.nodeAt? q = some c) :
    HeldAt source root (q ++ [0]) x name ↔
      HeldAt source root q x name ∨ root.scopeOf q = x ∧ ∃ o, Introduces source c o name := by
  simp only [HeldAt, Place.lt_concat_zero]
  constructor
  · rintro ⟨d, b, hb, hd | rfl, hx, ho⟩
    · exact .inl ⟨d, b, hb, hd, hx, ho⟩
    · cases hc.symm.trans hb
      exact .inr ⟨hx, ho⟩
  · rintro (⟨d, b, hb, hd, hx, ho⟩ | ⟨hx, ho⟩)
    · exact ⟨d, b, hb, .inl hd, hx, ho⟩
    · exact ⟨q, c, hc, .inr rfl, hx, ho⟩

/-- Once all children of a node have been left, the next sibling is next. -/
theorem heldAt_concat_succ {i k : Nat} (hc : root.nodeAt? (p ++ [i]) = some c)
    (hk : c.namedChildren.length ≤ k) :
    HeldAt source root (p ++ [i + 1]) x name ↔ HeldAt source root (p ++ [i] ++ [k]) x name := by
  refine exists_congr fun d => exists_congr fun b => and_congr_right fun hb => and_congr_left' ?_
  rw [Place.lt_concat_succ, Place.lt_append_iff (p := p ++ [i])]
  refine or_congr_right ⟨?_, fun ⟨r, hr, _⟩ => ⟨r, hr.symm⟩⟩
  rintro ⟨r, rfl⟩
  refine ⟨r, rfl, ?_⟩
  -- From the node on, a place goes on with the number of a child.
  cases r with
  | nil => exact List.nil_lt_cons _ _
  | cons j r =>
    rw [Tree.nodeAt?_append, hc, Option.bind_some, Tree.nodeAt?_cons_eq_some] at hb
    obtain ⟨c', hc', -⟩ := hb
    obtain ⟨hj, -⟩ := List.getElem?_eq_some_iff.1 hc'
    exact List.cons_lt_cons_iff.2 (.inl (hj.trans_le hk))

theorem not_heldAt_self : ¬ HeldAt source root q (some q) name := by
  rintro ⟨d, b, -, hd, hx, -⟩
  obtain ⟨r, rfl⟩ := Tree.prefix_of_scopeOf hx
  exact Place.not_append_lt q r hd

/-! ### Scopes read off a store -/

section Reading

variable {held held' : Option Place → String → Prop} {names : List (List String)}
  {chain : List (Option Place)}

/-- The scopes of a chain hold the names of some lists, one by one. -/
def ReadOff (held : Option Place → String → Prop) (names : List (List String))
    (chain : List (Option Place)) : Prop :=
  List.Forall₂ (fun ns x => ∀ name, name ∈ ns ↔ held x name) names chain

theorem ReadOff.congr (h : ReadOff held names chain)
    (hc : ∀ x ∈ chain, ∀ name, held' x name ↔ held x name) : ReadOff held' names chain := by
  obtain ⟨hlength, hzip⟩ := List.forall₂_iff_zip.1 h
  refine List.forall₂_iff_zip.2 ⟨hlength, fun {ns x} hmem name => ?_⟩
  rw [hc x (List.of_mem_zip hmem).2 name]
  exact hzip hmem name

/-- The own names of a scope and those of the scopes around it. -/
def Source.Scope.layers (s : Scope) : List (List String) :=
  s.names :: s.outer

/-- Names that are added to a scope are held by the first of its chain and by no other. -/
theorem ReadOff.add (h : ReadOff held s.layers (x :: chain)) (hx : x ∉ chain) {new : List String}
    (hnew : ∀ y name, held' y name ↔ held y name ∨ x = y ∧ name ∈ new) :
    ReadOff held' (s.add new).layers (x :: chain) := by
  obtain ⟨hfirst, houter⟩ := List.forall₂_cons.1 h
  refine .cons ?_ (ReadOff.congr houter ?_)
  · intro name
    rw [hnew, ← hfirst name]
    simp [Scope.add, or_comm]
  · intro y hy name
    have hne : x ≠ y := fun h => hx (h ▸ hy)
    simp [hnew, hne]

end Reading

/-- A scope that has just been opened holds nothing yet. -/
theorem readOff_openedBy (u : Unfinished)
    (h : ReadOff (HeldAt source root (placeBelow us)) s.layers (chainOf us)) :
    ReadOff (HeldAt source root (placeBelow us)) (s.openedBy u.tree.kind).layers
      (chainOf (u :: us)) := by
  have hfresh : ∀ name, name ∈ ([] : List String) ↔
      HeldAt source root (placeBelow us) (some (placeBelow us)) name := by
    simp [not_heldAt_self]
  rw [chainOf]
  cases ho : Opening.ofKind? u.tree.kind with
  | none =>
    rw [Scope.openedBy, ho]
    exact h
  | some o =>
    rw [Scope.openedBy, ho]
    cases o with
    | closed => exact .cons hfresh .nil
    | nested => exact .cons hfresh h

/-- The node that is entered below a path adds its names to the innermost scope. -/
theorem readOff_scopeWithin (hstand : Standing root (u :: us)) (hbuilt : u.built = [])
    (hs : ReadOff (HeldAt source root (placeBelow us)) s.layers (chainOf us)) :
    ReadOff (HeldAt source root (placeBelow (u :: us))) (scopeWithin source s u.tree).layers
      (chainOf (u :: us)) := by
  have hu : root.nodeAt? (placeBelow us) = some u.tree := hstand.1
  obtain ⟨chain, hchain⟩ := List.head?_eq_some_iff.1 (head?_chainOf hstand)
  have hopened := readOff_openedBy u hs
  -- The rest of the chain is left alone, as no scope stands on it twice.
  have hnodup := nodup_chainOf (u :: us)
  rw [hchain] at hopened hnodup ⊢
  rw [scopeWithin_eq_add, placeBelow_cons, hbuilt, List.length_nil]
  refine hopened.add (List.nodup_cons.1 hnodup).1 fun y name => ?_
  rw [heldAt_concat_zero hu, mem_introduced]

/-- It adds none to a scope that has been saved. -/
theorem readOff_saved (hstand : Standing root (u :: us)) (hbuilt : u.built = [])
    (hv : v :: vs <:+ u :: us) (ho : (Opening.ofKind? v.tree.kind).isSome)
    (hs : ReadOff (HeldAt source root (placeBelow us)) s.layers (chainOf vs)) :
    ReadOff (HeldAt source root (placeBelow (u :: us))) s.layers (chainOf vs) := by
  have hu : root.nodeAt? (placeBelow us) = some u.tree := hstand.1
  refine hs.congr fun x hx name => ?_
  have hne : root.scopeOf (placeBelow us) ≠ x := by
    rintro rfl
    exact head_notMem_chainOf hv ho (head?_chainOf hstand) hx
  rw [placeBelow_cons, hbuilt, List.length_nil, heldAt_concat_zero hu]
  simp [hne]

namespace Walk

variable {w w' : Walk}

/-! ### Order -/

/-- The unfinished nodes, the innermost first. -/
def path (w : Walk) : List Unfinished :=
  w.top :: w.above

/-- A node that opens a scope, and no other, has saved the scope that it was entered in on the way to
a walk. -/
def SavedOnEntry (source : Bytes) (root : Tree) (w : Walk) (u : Unfinished)
    (us : List Unfinished) : Prop :=
  ∃ s, u.saved = (Opening.ofKind? u.tree.kind).map (fun _ => s) ∧
    Reaches source (start source root) (descend source s u.tree us) ∧
    Reaches source (descend source s u.tree us) w

/-- A scope that a node has saved is the chain of the path around the node. -/
def Kept (held : Option Place → String → Prop) (u : Unfinished) (us : List Unfinished) : Prop :=
  ∀ s, u.saved = some s → ReadOff held s.layers (chainOf us)

/-- The nodes on the path stand one inside the other, each with the children ahead that it has not
entered and with the scope that it has to give back. The scope in force and all that have been saved
are the chains of their paths and have the names that the constructs entered so far introduce. -/
structure Disciplined (source : Bytes) (root : Tree) (w : Walk) : Prop where
  standing : Standing root w.path
  pending : w.top.pending = w.top.tree.namedChildren.drop w.top.built.length
  later : ∀ u ∈ w.above, u.pending = u.tree.namedChildren.drop (u.built.length + 1)
  saved : AlongPath (SavedOnEntry source root w) w.path
  current : ReadOff (HeldAt source root (placeBelow w.path)) w.scope.layers (chainOf w.path)
  kept : AlongPath (Kept (HeldAt source root (placeBelow w.path))) w.path

theorem step_cases (h : w.step source = .inr w') :
    (∃ c rest, w.top.pending = c :: rest ∧
      w' = descend source w.scope c ({ w.top with pending := rest } :: w.above)) ∨
    (w.top.pending = [] ∧ ∃ u above, w.above = u :: above ∧
      w' = ⟨w.scopeAround, { u with built := w.finished source :: u.built }, above⟩) := by
  unfold step at h
  split at h
  · rename_i c rest hp
    cases h
    exact .inl ⟨c, rest, hp, rfl⟩
  · rename_i hp
    split at h
    · cases h
    · rename_i u above ha
      cases h
      exact .inr ⟨hp, u, above, ha, rfl⟩

theorem SavedOnEntry.of_reaches (h : SavedOnEntry source root w u us) (hw : Reaches source w w') :
    SavedOnEntry source root w' u us := by
  obtain ⟨s, hs, hentered, hreached⟩ := h
  exact ⟨s, hs, hentered, reaches_trans hreached hw⟩

theorem SavedOnEntry.isSome (h : SavedOnEntry source root w u us) (hs : u.saved = some s) :
    (Opening.ofKind? u.tree.kind).isSome := by
  obtain ⟨t, ht, -⟩ := h
  obtain ⟨o, ho, -⟩ := Option.map_eq_some_iff.1 (ht.symm.trans hs)
  rw [ho]
  rfl

/-! ### One step -/

/-- A node is entered below a path that is in order. -/
theorem disciplined_descend (hr : Reaches source (start source root) (descend source s c us))
    (hc : root.nodeAt? (placeBelow us) = some c) (hstand : Standing root us)
    (hlater : ∀ u ∈ us, u.pending = u.tree.namedChildren.drop (u.built.length + 1))
    (hsaved : AlongPath (SavedOnEntry source root (descend source s c us)) us)
    (hs : ReadOff (HeldAt source root (placeBelow us)) s.layers (chainOf us))
    (hkept : AlongPath (Kept (HeldAt source root (placeBelow us))) us) :
    Disciplined source root (descend source s c us) := by
  have hstand' : Standing root (descend source s c us).path := ⟨hc, hstand⟩
  have hsaved' : AlongPath (SavedOnEntry source root (descend source s c us))
      (descend source s c us).path := ⟨⟨s, rfl, hr, reaches_refl _⟩, hsaved⟩
  have hbefore : AlongPath (Kept (HeldAt source root (placeBelow us)))
      (descend source s c us).path := by
    refine ⟨fun t ht => ?_, hkept⟩
    obtain ⟨_, -, rfl⟩ := Option.map_eq_some_iff.1 ht
    exact hs
  refine ⟨hstand', rfl, hlater, hsaved', readOff_scopeWithin hstand' rfl hs, ?_⟩
  exact hbefore.imp fun v vs hv hkept t ht =>
    readOff_saved hstand' rfl hv ((hsaved'.of_suffix hv).isSome ht) (hkept t ht)

theorem disciplined_start (source : Bytes) (root : Tree) :
    Disciplined source root (start source root) := by
  refine disciplined_descend (reaches_refl _) rfl trivial (by simp) trivial ?_ trivial
  refine .cons (fun name => ?_) .nil
  simp [Scope.empty, HeldAt]

theorem disciplined_enter (h : Disciplined source root w)
    (hr : Reaches source (start source root) w) {rest : List Tree}
    (hp : w.top.pending = c :: rest) :
    Disciplined source root
      (descend source w.scope c ({ w.top with pending := rest } :: w.above)) := by
  have hstep : w.step source =
      .inr (descend source w.scope c ({ w.top with pending := rest } :: w.above)) := by
    simp [step, hp]
  have hnext : Reaches source w _ := reaches_of_step hstep (reaches_refl _)
  have hdrop : w.top.tree.namedChildren.drop w.top.built.length = c :: rest := by
    rw [← h.pending, hp]
  have hsaved := h.saved.imp fun _ _ _ hv => hv.of_reaches hnext
  refine disciplined_descend (reaches_trans hr hnext) ?_ ⟨h.standing.1, h.standing.2⟩ ?_
    ⟨hsaved.1, hsaved.2⟩ h.current ⟨h.kept.1, h.kept.2⟩
  · rw [placeBelow_cons, Tree.nodeAt?_concat h.standing.1, ← Nat.add_zero w.top.built.length,
      ← List.getElem?_drop, hdrop, List.getElem?_cons_zero]
  · rintro v (_ | ⟨_, hv⟩)
    · show rest = _
      rw [← List.drop_drop, hdrop, List.drop_one, List.tail_cons]
    · exact h.later v hv

/-- The scope that comes into force as a node is left is the chain of the path around the node. -/
theorem readOff_scopeAround (h : Disciplined source root w) :
    ReadOff (HeldAt source root (placeBelow w.path)) w.scopeAround.layers (chainOf w.above) := by
  obtain ⟨t, ht, -⟩ := h.saved.1
  unfold scopeAround
  cases ho : Opening.ofKind? w.top.tree.kind with
  | none =>
    have hsaved : w.top.saved = none := by rw [ht, ho, Option.map_none]
    have hchain : chainOf w.path = chainOf w.above := by rw [path, chainOf, ho]
    rw [hsaved, Option.getD_none, ← hchain]
    exact h.current
  | some o =>
    have hsaved : w.top.saved = some t := by rw [ht, ho, Option.map_some]
    rw [hsaved, Option.getD_some]
    exact h.kept.1 t hsaved

theorem disciplined_leave (h : Disciplined source root w) (hp : w.top.pending = [])
    (ha : w.above = u :: us)
    (hnext : Reaches source w
      ⟨w.scopeAround, { u with built := w.finished source :: u.built }, us⟩) :
    Disciplined source root
      ⟨w.scopeAround, { u with built := w.finished source :: u.built }, us⟩ := by
  have hpath : w.path = w.top :: u :: us := by rw [path, ha]
  have hstand : Standing root (w.top :: u :: us) := hpath ▸ h.standing
  have htop : root.nodeAt? (placeBelow us ++ [u.built.length]) = some w.top.tree := by
    rw [← placeBelow_cons]
    exact hstand.1
  have hdone : w.top.tree.namedChildren.length ≤ w.top.built.length := by
    rw [← List.drop_eq_nil_iff, ← h.pending, hp]
  -- The store is the same: all that lies inside the node has been entered.
  have hheld (x : Option Place) (name : String) :
      HeldAt source root (placeBelow ({ u with built := w.finished source :: u.built } :: us)) x
        name ↔ HeldAt source root (placeBelow w.path) x name := by
    rw [hpath, placeBelow_cons, placeBelow_cons, placeBelow_cons]
    exact heldAt_concat_succ htop hdone
  have hsaved := h.saved.imp fun _ _ _ hv => hv.of_reaches hnext
  have hkept := h.kept.imp fun _ _ _ hv t ht => (hv t ht).congr fun x _ name => hheld x name
  have hcurrent := (readOff_scopeAround h).congr fun x _ name => hheld x name
  rw [hpath] at hsaved hkept
  rw [ha] at hcurrent
  -- The node around it goes on with its tree and its saved scope.
  exact ⟨⟨hstand.2.1, hstand.2.2⟩, h.later u (ha ▸ List.mem_cons_self),
    fun v hv => h.later v (ha ▸ List.mem_cons_of_mem _ hv), ⟨hsaved.2.1, hsaved.2.2⟩,
    hcurrent, ⟨hkept.2.1, hkept.2.2⟩⟩

/-! ### A whole run -/

/-- Every walk that has come from the start of a tree is in order. -/
theorem disciplined_of_reaches (h : Reaches source (start source root) w) :
    Disciplined source root w := by
  induction h with
  | refl => exact disciplined_start source root
  | @tail w w' hr hs ih =>
    rcases step_cases hs with ⟨c, rest, hp, rfl⟩ | ⟨hp, u, above, ha, rfl⟩
    · exact disciplined_enter ih hr hp
    · exact disciplined_leave ih hp ha (reaches_of_step hs (reaches_refl _))

/-- What has been entered stays entered. -/
theorem lt_placeBelow_of_step {d : Place} (h : w.step source = .inr w')
    (hd : d < placeBelow w.path) : d < placeBelow w'.path := by
  rcases step_cases h with ⟨c, rest, -, rfl⟩ | ⟨-, u, above, ha, rfl⟩
  · show d < placeBelow (_ :: _)
    rw [placeBelow_cons]
    exact Place.lt_concat_zero.2 (.inl hd)
  · rw [path, ha, placeBelow_cons, placeBelow_cons] at hd
    rw [path, placeBelow_cons]
    refine Place.lt_concat_succ.2 ?_
    rcases Place.lt_append_iff.1 hd with hd | ⟨r, rfl, -⟩
    · exact .inl hd
    · exact .inr (List.prefix_append _ _)

theorem heldAt_of_reaches (h : Reaches source w w')
    (hx : HeldAt source root (placeBelow w.path) x name) :
    HeldAt source root (placeBelow w'.path) x name := by
  induction h with
  | refl => exact hx
  | tail _ hs ih =>
    obtain ⟨d, b, hb, hd, hscope, ho⟩ := ih
    exact ⟨d, b, hb, lt_placeBelow_of_step hs hd, hscope, ho⟩

/-- A scope that a walk has, with its chain: the one in force, or one that a node has saved. -/
inductive Keeps (w : Walk) : Scope → List (Option Place) → Prop
  | current : Keeps w w.scope (chainOf w.path)
  | saved {u : Unfinished} {us : List Unfinished} {s : Scope} (hu : u :: us <:+ w.path)
      (hs : u.saved = some s) : Keeps w s (chainOf us)

/-- A walk has a scope `x` with the names `ns`. -/
def Has (w : Walk) (x : Option Place) (ns : List String) : Prop :=
  ∃ s chain, w.Keeps s chain ∧ (ns, x) ∈ s.layers.zip chain

theorem mem_iff_of_has {ns : List String} (h : Disciplined source root w) (hx : w.Has x ns) :
    name ∈ ns ↔ HeldAt source root (placeBelow w.path) x name := by
  obtain ⟨s, chain, hkeeps, hmem⟩ := hx
  have hread : ReadOff (HeldAt source root (placeBelow w.path)) s.layers chain := by
    obtain _ | ⟨hu, hs⟩ := hkeeps
    · exact h.current
    · exact h.kept.of_suffix hu s hs
  exact (List.forall₂_iff_zip.1 hread).2 hmem name

/-- A walk that enters a node comes to leave it; the scope in force then is the one from before with
the names of the constructs that the node's subtree has in it. -/
theorem exists_left (source : Bytes) (s : Scope) (t : Tree) (above : List Unfinished) :
    ∃ w, Reaches source (descend source s t above) w ∧
      w.top.tree = t ∧ w.top.pending = [] ∧ w.above = above ∧
      s.Gains (fun name => t.Exposes fun b => ∃ o, Introduces source b o name) w.scopeAround ∧
      ((Opening.ofKind? t.kind).isSome → w.scopeAround = s) := by
  have hleft : Reaches source (descend source s t above) _ :=
    reaches_drained (fun t _ => reaches_left t) _ _ rfl above
  refine ⟨_, hleft, rfl, rfl, rfl, ?_⟩
  rw [List.append_nil, ← scopeLeft, scopeAround_eq]
  constructor
  · refine Scope.gains_add fun name => ?_
    simp only [mem_leaked, mem_introduced]
  · intro ho
    obtain ⟨o, ho⟩ := Option.isSome_iff_exists.1 ho
    rw [leaked_of_opening ho, Scope.add_nil]

/-- At each step of the walk from a root, the scope in force and those that have been saved are the
chains that the path makes, and they have the names that the constructs entered so far introduce into
each scope. Later on a scope has no name less. A node that is left gives back the scope that it was
entered in: the scopes around it are the same, and it has gained the names that the constructs of the
node's subtree introduce into it, none if the node opens a scope. -/
theorem scopes_follow_path (source : Bytes) (root : Tree) :
    (∀ w, Reaches source (start source root) w → Disciplined source root w) ∧
    (∀ w w', Reaches source (start source root) w → Reaches source w w' →
      ∀ x ns ns', w.Has x ns → w'.Has x ns' → ns ⊆ ns') ∧
    ∀ s t above, ∃ w, Reaches source (descend source s t above) w ∧
      w.top.tree = t ∧ w.top.pending = [] ∧ w.above = above ∧
      s.Gains (fun name => t.Exposes fun b => ∃ o, Introduces source b o name) w.scopeAround ∧
      ((Opening.ofKind? t.kind).isSome → w.scopeAround = s) := by
  refine ⟨fun w => disciplined_of_reaches, ?_, exists_left source⟩
  intro w w' hr hw x ns ns' hx hx' name hname
  have hheld := (mem_iff_of_has (disciplined_of_reaches hr) hx).1 hname
  exact (mem_iff_of_has (disciplined_of_reaches (reaches_trans hr hw)) hx').2
    (heldAt_of_reaches hw hheld)

/-! In `def m(a); end` the root opens a scope of its own. The parameter is a name of that scope, and the
top level comes back without it. -/

def methodWithParameter : Tree :=
  .onFirstLine "method" none 0 13
    [.onFirstLine "identifier" (some .name) 4 5 [],
     .onFirstLine "method_parameters" none 5 8 [.onFirstLine "identifier" none 6 7 []]]

theorem method_gives_back_top_level :
    let source := Bytes.ofString "def m(a); end"
    ∃ w, Reaches source (start source methodWithParameter) w ∧
      w.top.pending = [] ∧ w.above = [] ∧
      w.Has (some []) w.scope.names ∧ "a" ∈ w.scope.names ∧ w.scopeAround = .empty := by
  intro source
  obtain ⟨hdisciplined, -, hleft⟩ := scopes_follow_path source methodWithParameter
  obtain ⟨w, hr, htree, hp, ha, -, hsame⟩ := hleft .empty methodWithParameter []
  have hw := hdisciplined w hr
  have hchain : chainOf w.path = [some []] := by
    rw [path, ha, chainOf, htree]
    rfl
  have hhas : w.Has (some []) w.scope.names :=
    ⟨w.scope, _, .current, by simp [hchain, Scope.layers]⟩
  have hdone : 2 ≤ w.top.built.length := by
    have hnone := hw.pending
    rw [hp, htree] at hnone
    exact List.drop_eq_nil_iff.1 hnone.symm
  refine ⟨w, hr, hp, ha, hhas, ?_, hsame (by decide)⟩
  rw [mem_iff_of_has hw hhas, path, ha]
  refine ⟨[1], _, rfl, ?_, by decide, .onFirstLine "identifier" none 6 7 [], ?_⟩
  · rw [placeBelow_cons]
    exact List.cons_lt_cons_iff.2 (.inl hdone)
  · have htext : Tree.text source (.onFirstLine "identifier" none 6 7 []) = "a" := by
      decide +kernel
    rw [← htext]
    exact .parameter (by decide) List.mem_cons_self .refl (.inl ⟨rfl, rfl⟩)

end Walk

end RubyInlay
