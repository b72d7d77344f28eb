import Mathlib.Logic.Relation
import RubyInlay.Outline.Conversion
import RubyInlay.Proofs.Source.Place

/-! The outline by recursion. A walk keeps one scope and takes it from node to node; seen from a
node, all that its subtree does to that scope is to add names to it, and none at all if the node
opens a scope of its own. So the outline of a tree depends on the scope it is entered in and on
nothing else that the walk has met. Main statement: the walk ends with that outline. -/

namespace RubyInlay

open Source Relation

variable (source : Bytes)

/-! ### Scopes -/

namespace Source.Scope

@[simp] theorem add_nil (s : Scope) : s.add [] = s := rfl

@[simp] theorem add_add (s : Scope) (xs ys : List String) :
    (s.add xs).add ys = s.add (ys ++ xs) := by
  simp [add]

end Source.Scope

mutual

/-- The names that a tree adds to the scope it stands in, the latest first. -/
def leaked (t : Tree) : List String :=
  if (Opening.ofKind? t.kind).isSome then [] else leakedAll t.namedChildren ++ introduced source t
termination_by 2 * t.size
decreasing_by have := t.sizes_namedChildren_lt; omega

def leakedAll (ts : List Tree) : List String :=
  match ts with
  | [] => []
  | t :: ts => leakedAll ts ++ leaked t
termination_by 2 * Tree.sizes ts + 1
decreasing_by
  all_goals
    have := t.size_pos
    rw [Tree.sizes_cons]
    omega

end

@[simp] theorem leakedAll_nil : leakedAll source [] = [] := by rw [leakedAll]

@[simp] theorem leakedAll_cons (t : Tree) (ts : List Tree) :
    leakedAll source (t :: ts) = leakedAll source ts ++ leaked source t := by rw [leakedAll]

theorem leakedAll_eq (ts : List Tree) :
    leakedAll source ts = (ts.map (leaked source)).reverse.flatten := by
  induction ts with
  | nil => simp
  | cons t ts ih => simp [ih]

variable {source} in
theorem leaked_of_opening {t : Tree} {o : Opening} (h : Opening.ofKind? t.kind = some o) :
    leaked source t = [] := by
  rw [leaked, h]; rfl

variable {source} in
theorem leaked_of_not_opening {t : Tree} (h : Opening.ofKind? t.kind = none) :
    leaked source t = leakedAll source t.namedChildren ++ introduced source t := by
  rw [leaked, h]; rfl

/-- The scope in force when a node is left that has been entered in `scope`. -/
def scopeLeft (scope : Scope) (t : Tree) : Scope :=
  (scopeWithin source scope t).add (leakedAll source t.namedChildren)

/-! ### Outlines -/

mutual

/-- The outline of a tree that is entered in `scope`. -/
def outline (scope : Scope) (t : Tree) : Node :=
  assemble source (scopeLeft source scope t) t
    (outlines (scopeWithin source scope t) t.namedChildren)
termination_by 2 * t.size
decreasing_by have := t.sizes_namedChildren_lt; omega

/-- The outlines of siblings, each of which finds the names that those before it have added. -/
def outlines (scope : Scope) (ts : List Tree) : List Node :=
  match ts with
  | [] => []
  | t :: ts => outline scope t :: outlines (scope.add (leaked source t)) ts
termination_by 2 * Tree.sizes ts + 1
decreasing_by
  all_goals
    have := t.size_pos
    rw [Tree.sizes_cons]
    omega

end

@[simp] theorem outlines_nil (scope : Scope) : outlines source scope [] = [] := by rw [outlines]

@[simp] theorem outlines_cons (scope : Scope) (t : Tree) (ts : List Tree) :
    outlines source scope (t :: ts) =
      outline source scope t :: outlines source (scope.add (leaked source t)) ts := by
  rw [outlines]

/-! ### The walk -/

namespace Walk

variable {source} {w w' : Walk}

theorem run_of_inl {n : Node} (h : w.step source = .inl n) : w.run source = n := by
  rw [run]; split <;> simp_all

theorem run_of_inr (h : w.step source = .inr w') : w.run source = w'.run source := by
  rw [run]; split <;> simp_all

variable (source) in
/-- Some steps lead from one walk to another. -/
def Reaches : Walk → Walk → Prop :=
  ReflTransGen fun w w' => w.step source = .inr w'

theorem reaches_refl (w : Walk) : Reaches source w w := ReflTransGen.refl

theorem reaches_of_step {w'' : Walk} (hs : w.step source = .inr w') (h : Reaches source w' w'') :
    Reaches source w w'' := ReflTransGen.head hs h

theorem reaches_trans {w'' : Walk} (h : Reaches source w w') (h' : Reaches source w' w'') :
    Reaches source w w'' := ReflTransGen.trans h h'

theorem run_of_reaches (h : Reaches source w w') : w.run source = w'.run source := by
  induction h using ReflTransGen.head_induction_on with
  | refl => rfl
  | head hs _ ih => rw [run_of_inr hs, ih]

/-- Leaving a node takes back the scope that it has opened and keeps what it has leaked. -/
theorem scopeAround_eq {t : Tree} {scope : Scope} {built : List Node} {above : List Unfinished} :
    scopeAround ⟨scopeLeft source scope t,
      ⟨t, [], built, (Opening.ofKind? t.kind).map fun _ => scope⟩, above⟩ =
      scope.add (leaked source t) := by
  cases h : Opening.ofKind? t.kind with
  | some o => simp [scopeAround, leaked_of_opening h]
  | none => simp [scopeAround, scopeLeft, scopeWithin, h, leaked_of_not_opening h]

/-- A walk that comes to a list of siblings gets through it, if it gets through each of them. -/
theorem reaches_drained {ts : List Tree}
    (hts : ∀ t ∈ ts, ∀ (scope : Scope) (u : Unfinished) (above : List Unfinished),
      Reaches source (descend source scope t (u :: above))
        ⟨scope.add (leaked source t), { u with built := outline source scope t :: u.built }, above⟩)
    (scope : Scope) (u : Unfinished) (hu : u.pending = ts) (above : List Unfinished) :
    Reaches source ⟨scope, u, above⟩ ⟨scope.add (leakedAll source ts),
      { u with pending := [], built := (outlines source scope ts).reverse ++ u.built }, above⟩ := by
  induction ts generalizing scope u with
  | nil =>
    obtain ⟨tree, pending, built, saved⟩ := u
    cases hu
    simpa using show Reaches source _ _ from reaches_refl _
  | cons t ts ih =>
    have hstep : step source ⟨scope, u, above⟩ =
        .inr (descend source scope t ({ u with pending := ts } :: above)) := by
      simp [step, hu]
    have hchild := hts t List.mem_cons_self scope { u with pending := ts } above
    have hrest := ih (fun t ht => hts t (List.mem_cons_of_mem _ ht)) (scope.add (leaked source t))
      { u with pending := ts, built := outline source scope t :: u.built } rfl
    simpa using reaches_of_step hstep (reaches_trans hchild hrest)

theorem reaches_left (t : Tree) (scope : Scope) (u : Unfinished) (above : List Unfinished) :
    Reaches source (descend source scope t (u :: above)) ⟨scope.add (leaked source t),
      { u with built := outline source scope t :: u.built }, above⟩ := by
  induction t using Tree.named_induction generalizing scope u above with
  | node t ih =>
    have hs : scopeAround ⟨scopeLeft source scope t, ⟨t, [],
        (outlines source (scopeWithin source scope t) t.namedChildren).reverse,
        (Opening.ofKind? t.kind).map fun _ => scope⟩, u :: above⟩ = scope.add (leaked source t) :=
      scopeAround_eq
    refine reaches_trans (reaches_drained ih _ _ rfl _) (reaches_of_step ?_ (reaches_refl _))
    rw [← hs]
    simp [step, scopeLeft, finished, scopeAround, outline]

/-- The walk from a root ends with the root's outline in the empty scope. -/
theorem run_start (root : Tree) : (start source root).run source = outline source .empty root := by
  have h : Reaches source (start source root) _ :=
    reaches_drained (fun t _ => reaches_left t) _ _ rfl []
  rw [run_of_reaches h]
  apply run_of_inl
  simp [step, finished, outline, scopeLeft]

end Walk

theorem Node.ofTree_eq_outline (root : Tree) :
    Node.ofTree source root = outline source .empty root :=
  Walk.run_start root

end RubyInlay
