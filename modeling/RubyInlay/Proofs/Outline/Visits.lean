import RubyInlay.Listeners

/-! The tour of an outline. The tour keeps the subtrees ahead of it in one list; the nodes come in
the order of the plain recursion, each before its children. -/

namespace RubyInlay.Node

theorem preorders_eq_flatMap (ns : List Node) : preorders ns = ns.flatMap preorder := by
  induction ns with
  | nil => rfl
  | cons n ns ih => rw [preorders_cons, List.flatMap_cons, ih]

theorem toList_visitFrom (seen : Array Node) (ahead : List Node) :
    (visitFrom seen ahead).toList = seen.toList ++ preorders ahead := by
  induction seen, ahead using visitFrom.induct with
  | case1 seen => simp [visitFrom]
  | case2 seen n ns ih =>
    rw [visitFrom, ih, preorders_append, preorders_cons, preorder_eq n]
    simp

theorem visits_eq_preorder (n : Node) : n.visits = n.preorder := by
  rw [visits, toList_visitFrom]
  simp

end RubyInlay.Node
