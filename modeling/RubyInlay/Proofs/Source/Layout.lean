import Mathlib.Data.List.Pairwise
import Mathlib.Logic.Relation
import Mathlib.Tactic.MkIffOfInductiveProp
import RubyInlay.Proofs.Source.Place

/-! Byte ranges in a tree. In a well placed tree the ranges of children lie in the range of their
node and siblings come one after the other. Main statement: a node that is entered before another
one and is not around it ends before the other begins. -/

namespace RubyInlay.Source.Tree

open Relation

variable {t u b c : Tree} {d p : Place} {i : Nat}

/-- A node of a tree, visited or not. -/
def Below (t u : Tree) : Prop :=
  ReflTransGen (fun t c => c ∈ t.children) t u

theorem below_node {info : Info} {ts : List Tree} :
    (node info ts).Below u ↔ u = node info ts ∨ ∃ c ∈ ts, c.Below u := by
  rw [Below, ReflTransGen.cases_head_iff, eq_comm]
  rfl

/-- What holds of all nodes of a tree holds of its root and of all nodes of its children. -/
theorem forall_below_node {P : Tree → Prop} {info : Info} {ts : List Tree} :
    (∀ u, (node info ts).Below u → P u) ↔ P (node info ts) ∧ ∀ c ∈ ts, ∀ u, c.Below u → P u := by
  simp only [below_node]
  constructor
  · exact fun h => ⟨h _ (.inl rfl), fun c hc u hu => h u (.inr ⟨c, hc, hu⟩)⟩
  · rintro ⟨h, hts⟩ u (rfl | ⟨c, hc, hu⟩)
    · exact h
    · exact hts c hc u hu

theorem below_of_mem (h : c ∈ t.children) : t.Below c := ReflTransGen.single h

theorem Below.trans (h : t.Below c) (h' : c.Below u) : t.Below u := ReflTransGen.trans h h'

theorem below_of_nodeAt? (h : t.nodeAt? p = some u) : t.Below u := by
  induction p generalizing t with
  | nil => cases h; exact .refl
  | cons i p ih =>
    obtain ⟨c, hc, hu⟩ := nodeAt?_cons_eq_some.1 h
    exact .head (mem_of_mem_namedChildren (List.mem_of_getElem? hc)) (ih hu)

/-! ### Well placed trees -/

/-- One node and its children are in order. -/
@[mk_iff] structure InOrder (t : Tree) : Prop where
  forward : t.info.startByte ≤ t.info.stopByte
  inside : ∀ c ∈ t.children,
    t.info.startByte ≤ c.info.startByte ∧ c.info.stopByte ≤ t.info.stopByte
  apart : t.children.Pairwise fun a b => a.info.stopByte ≤ b.info.startByte

def WellPlaced (t : Tree) : Prop :=
  ∀ u, t.Below u → u.InOrder

theorem wellPlaced_node {info : Info} {ts : List Tree} :
    (node info ts).WellPlaced ↔ (node info ts).InOrder ∧ ∀ c ∈ ts, c.WellPlaced :=
  forall_below_node

theorem WellPlaced.of_below (hw : t.WellPlaced) (h : t.Below u) : u.WellPlaced :=
  fun v hv => hw v (h.trans hv)

theorem WellPlaced.inside (hw : t.WellPlaced) (h : t.Below u) :
    t.info.startByte ≤ u.info.startByte ∧ u.info.stopByte ≤ t.info.stopByte := by
  induction h with
  | refl => exact ⟨le_rfl, le_rfl⟩
  | @tail c u h hc ih =>
    have hu := (hw c h).inside u hc
    exact ⟨ih.1.trans hu.1, hu.2.trans ih.2⟩

theorem WellPlaced.stop_le_start (hw : t.WellPlaced) {j : Nat} (hij : j < i)
    (hb : t.namedChildren[j]? = some b) (hc : t.namedChildren[i]? = some c) :
    b.info.stopByte ≤ c.info.startByte := by
  have hp : t.namedChildren.Pairwise fun a b => a.info.stopByte ≤ b.info.startByte :=
    (hw t .refl).apart.sublist List.filter_sublist
  obtain ⟨hj, rfl⟩ := List.getElem?_eq_some_iff.1 hb
  obtain ⟨hi, rfl⟩ := List.getElem?_eq_some_iff.1 hc
  exact List.pairwise_iff_getElem.1 hp j i hj hi hij

/-- A node that comes first and is not around the other ends before the other begins. -/
theorem WellPlaced.stop_le_start_of_lt (hw : t.WellPlaced) (hb : t.nodeAt? d = some b)
    (hu : t.nodeAt? p = some u) (hlt : d < p) (hd : ¬ d <+: p) :
    b.info.stopByte ≤ u.info.startByte := by
  induction p generalizing t d with
  | nil => exact absurd hlt (List.not_lt_nil _)
  | cons i p ih =>
    cases d with
    | nil => exact absurd List.nil_prefix hd
    | cons j d =>
      obtain ⟨x, hx, hb⟩ := nodeAt?_cons_eq_some.1 hb
      obtain ⟨c, hc, hu⟩ := nodeAt?_cons_eq_some.1 hu
      have below {k : Nat} {y : Tree} (hy : t.namedChildren[k]? = some y) : t.Below y :=
        below_of_mem (mem_of_mem_namedChildren (List.mem_of_getElem? hy))
      rcases List.cons_lt_cons_iff.1 hlt with hij | ⟨rfl, hlt'⟩
      · have hbx := ((hw.of_below (below hx)).inside (below_of_nodeAt? hb)).2
        have huc := ((hw.of_below (below hc)).inside (below_of_nodeAt? hu)).1
        have hxc := hw.stop_le_start hij hx hc
        omega
      · obtain rfl : x = c := Option.some.inj (hx.symm.trans hc)
        refine ih (hw.of_below (below hc)) hb hu hlt' ?_
        exact fun h => hd (List.cons_prefix_cons.2 ⟨rfl, h⟩)

end RubyInlay.Source.Tree
