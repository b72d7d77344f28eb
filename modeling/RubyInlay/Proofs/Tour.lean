import RubyInlay.Proofs.Workbench

/-! Tours by recursion. A tour keeps one list of the subtrees ahead of it. Here an outline is gone
through by recursion: a node calls the listeners that have been added for its class, and its
children follow from left to right. Main statement: both ways make the same calls, and a tour counts
each node once. -/

namespace RubyInlay

variable {α β : Type}

/-! ### Recursion over an outline -/

namespace Node

theorem size_lt_of_mem_children {n c : Node} (h : c ∈ n.children) : c.size < n.size := by
  obtain ⟨before, after, hn⟩ := List.append_of_mem h
  rw [n.size_eq, hn, preorders_append, preorders_cons, size]
  simp only [List.length_append]
  omega

/-- What holds of a node when it holds of its children holds of all outlines. -/
@[elab_as_elim] theorem child_induction {motive : Node → Prop}
    (node : ∀ n, (∀ c ∈ n.children, motive c) → motive n) (n : Node) : motive n :=
  node n fun c hc =>
    have := size_lt_of_mem_children hc
    child_induction node c
termination_by n.size
decreasing_by exact this

/-- What a node fires, and then what its children do from left to right. -/
def walk (fire : Node → List β) (n : Node) : List β :=
  fire n ++ n.children.attach.flatMap fun ⟨c, hc⟩ =>
    have := size_lt_of_mem_children hc
    walk fire c
termination_by n.size
decreasing_by exact this

mutual

/-- One for a node, and as many as are counted below it; below an omitted value there is its
expression. -/
def count : Node → Nat
  | plain _ _ ns => 1 + counts ns
  | rescueClause _ _ ns => 1 + counts ns
  | omittedValue _ _ => 1 + 1
  | expression _ => 1

def counts : List Node → Nat
  | [] => 0
  | n :: ns => count n + counts ns

end

theorem walk_eq (fire : Node → List β) (n : Node) :
    n.walk fire = fire n ++ n.children.flatMap (walk fire) := by
  rw [walk]
  simp [List.flatMap_def]

theorem count_eq (n : Node) : n.count = 1 + counts n.children := by
  cases n <;> simp [count, counts, children]

theorem walk_eq_flatMap_preorder (fire : Node → List β) (n : Node) :
    n.walk fire = n.preorder.flatMap fire := by
  induction n using child_induction with
  | node n ih =>
    have hbelow : n.children.flatMap (walk fire) =
        n.children.flatMap fun c => c.preorder.flatMap fire :=
      List.flatMap_congr ih
    rw [walk_eq, preorder_eq, List.flatMap_cons, preorders_eq_flatMap, List.flatMap_assoc, hbelow]

theorem counts_eq_length {ns : List Node} (h : ∀ n ∈ ns, n.count = n.size) :
    counts ns = (preorders ns).length := by
  induction ns with
  | nil => simp [counts]
  | cons n ns ih =>
    have hn : n.count = n.preorder.length := h n List.mem_cons_self
    have hrest := ih fun m hm => h m (List.mem_cons_of_mem _ hm)
    rw [counts, hn, hrest, preorders_cons, List.length_append]

theorem count_eq_size (n : Node) : n.count = n.size := by
  induction n using child_induction with
  | node n ih => rw [count_eq, size_eq, counts_eq_length ih]

end Node

/-! ### Calls of a node -/

/-- The calls of a node: those of the listeners that have been added for its class, in the order in
which they were added. -/
def firedAt (added : List (NodeClass × α)) (n : Node) : List (α × Node) :=
  match added with
  | [] => []
  | (c, listener) :: rest =>
    if c = n.nodeClass then (listener, n) :: firedAt rest n else firedAt rest n

theorem firedAt_append (xs ys : List (NodeClass × α)) (n : Node) :
    firedAt (xs ++ ys) n = firedAt xs n ++ firedAt ys n := by
  induction xs with
  | nil => rfl
  | cons x xs ih => by_cases hx : x.1 = n.nodeClass <;> simp [firedAt, hx, ih]

/-- A listener for another class fires nothing. -/
theorem firedAt_cons_of_ne {c : NodeClass} {n : Node} (hc : c ≠ n.nodeClass) (listener : α)
    (added : List (NodeClass × α)) : firedAt ((c, listener) :: added) n = firedAt added n := by
  rw [firedAt, if_neg hc]

namespace Listeners

/-- The listeners after some have been added, one after the other. -/
def ofAdded (added : List (NodeClass × α)) : Listeners α :=
  added.foldl (fun ls a => ls.add a.1 a.2) .empty

theorem entries_foldl_add (ls : Listeners α) (added : List (NodeClass × α)) :
    (added.foldl (fun ls a => ls.add a.1 a.2) ls).entries = ls.entries ++ added := by
  induction added generalizing ls with
  | nil => simp
  | cons a added ih => rw [List.foldl_cons, ih]; simp [add]

theorem entries_ofAdded (added : List (NodeClass × α)) : (ofAdded added).entries = added :=
  entries_foldl_add .empty added

theorem callsAt_eq_firedAt (ls : Listeners α) (n : Node) :
    ls.callsAt n = firedAt ls.entries n := by
  unfold callsAt ofClass
  induction ls.entries with
  | nil => rfl
  | cons e es ih => by_cases he : e.1 = n.nodeClass <;> simp_all [firedAt]

/-- The calls of a tour are those of the recursion. -/
theorem calls_tour (ls : Listeners α) (root : Node) :
    (ls.tour root).calls = root.walk (firedAt ls.entries) := by
  rw [tour, Node.visits_eq_preorder, Node.walk_eq_flatMap_preorder]
  exact List.flatMap_congr fun n _ => callsAt_eq_firedAt ls n

theorem visited_tour (ls : Listeners α) (root : Node) : (ls.tour root).visited = root.count := by
  rw [tour, Node.visits_eq_preorder, Node.count_eq_size]
  rfl

end Listeners

/-! ### Probes of a workbench -/

/-- The tag of a probe. -/
def Listener.tag? : Listener → Option String
  | .probe tag => some tag
  | .collector _ => none

namespace Workbench

/-- The probe that a step adds, with the class it listens for. -/
def Step.probe? : Step → Option (NodeClass × String)
  | .probe cls tag => some (cls, tag)
  | _ => none

/-- The probes among some listeners. -/
def probesOf (entries : List (NodeClass × Listener)) : List (NodeClass × String) :=
  entries.filterMap fun e => e.2.tag?.map (e.1, ·)

/-- A step adds its probe behind those that are there; a collector is none. -/
theorem probesOf_step (w : Workbench) (x : Step) :
    probesOf (w.step x).2.listeners.entries =
      probesOf w.listeners.entries ++ x.probe?.toList := by
  cases x with
  | probe cls tag => simp [step, Listeners.add, probesOf, Listener.tag?, Step.probe?]
  | collector id window configuration =>
    cases hs : Settings.ofJson configuration with
    | ok settings =>
      simp [step, hs, addCollector, Listeners.addCollector, Collector.classes, Listeners.add,
        probesOf, Listener.tag?, Step.probe?]
    | error e => simp [step_of_refused hs, Step.probe?]
  | tour root => simp [step, collect, Step.probe?]
  | inspect id => cases hh : w.hintsOf? id <;> simp [step, hh, Step.probe?]

theorem probesOf_after (w : Workbench) (steps : List Step) :
    probesOf (w.after steps).listeners.entries =
      probesOf w.listeners.entries ++ steps.filterMap Step.probe? := by
  induction steps generalizing w with
  | nil => simp
  | cons x steps ih =>
    rw [after_cons, ih, probesOf_step, List.append_assoc]
    cases hx : x.probe? <;> simp [hx]

theorem events_firedAt (entries : List (NodeClass × Listener)) (n : Node) :
    events (firedAt entries n) = firedAt (probesOf entries) n := by
  induction entries with
  | nil => rfl
  | cons e es ih =>
    obtain ⟨c, listener⟩ := e
    simp only [events, probesOf] at ih ⊢
    cases listener with
    | probe tag => by_cases hc : c = n.nodeClass <;> simp [firedAt, hc, ih, Listener.tag?]
    | collector i => by_cases hc : c = n.nodeClass <;> simp [firedAt, hc, ih, Listener.tag?]

theorem events_walk (fire : Node → List (Listener × Node)) (root : Node) :
    events (root.walk fire) = root.walk fun n => events (fire n) := by
  simp only [Node.walk_eq_flatMap_preorder, events, List.filterMap_flatMap]

/-- What a tour reports after some steps. -/
theorem reply_tour (before : List Step) (root : Node) :
    ((start.after before).step (.tour root)).1 =
      .toured (root.walk (firedAt (before.filterMap Step.probe?))) [.visited root.count] := by
  have hprobes : probesOf (start.after before).listeners.entries =
      before.filterMap Step.probe? := probesOf_after start before
  simp only [step, Listeners.calls_tour, Listeners.visited_tour, events_walk, events_firedAt,
    hprobes]

end Workbench

/-! ### Tours -/

/-- Whatever listeners have been added, a tour makes the calls of the recursion and visits as many
nodes as the outline has; listeners for other classes change nothing for a node. So a tour of a
workbench reports the nodes to its probes in that order, and logs their number. -/
theorem tour_eq_walk (added : List (NodeClass × α)) (root : Node) :
    ((Listeners.ofAdded added).tour root).calls = root.walk (firedAt added) ∧
    ((Listeners.ofAdded added).tour root).visited = root.count ∧
    (∀ (before after : List (NodeClass × α)) (c : NodeClass) (listener : α) (n : Node),
      c ≠ n.nodeClass → (Listeners.ofAdded (before ++ (c, listener) :: after)).callsAt n =
        (Listeners.ofAdded (before ++ after)).callsAt n) ∧
    ∀ steps : List Workbench.Step,
      ((Workbench.start.after steps).step (.tour root)).1 =
        .toured (root.walk (firedAt (steps.filterMap Workbench.Step.probe?)))
          [.visited root.count] := by
  refine ⟨?_, Listeners.visited_tour _ root, fun before after c listener n hc => ?_,
    fun steps => Workbench.reply_tour steps root⟩
  · rw [Listeners.calls_tour, Listeners.entries_ofAdded]
  · rw [Listeners.callsAt_eq_firedAt, Listeners.callsAt_eq_firedAt, Listeners.entries_ofAdded,
      Listeners.entries_ofAdded, firedAt_append, firedAt_append, firedAt_cons_of_ne hc]

/-! A clause with an entry below it, two listeners for clauses and one for omitted values. -/

def entryBelowClause : Node :=
  .rescueClause [] ⟨2, 0, 3, 6⟩
    [.plain "pair" ⟨3, 2, 3, 4⟩
      [.omittedValue ⟨3, 2, 3, 3⟩ ⟨.methodCall "x", ⟨3, 2, 3, 3⟩⟩]]

def twoForClauses : List (NodeClass × String) :=
  [(.rescueClause, "first"), (.omittedValue, "second"), (.rescueClause, "third")]

theorem clause_ignores_listener_for_values :
    NodeClass.omittedValue ≠ entryBelowClause.nodeClass ∧
    (Listeners.ofAdded twoForClauses).callsAt entryBelowClause =
      (Listeners.ofAdded [(.rescueClause, "first"), (.rescueClause, "third")]).callsAt
        entryBelowClause ∧
    ((Listeners.ofAdded twoForClauses).tour entryBelowClause).calls.map (·.1) =
      ["first", "third", "second"] ∧
    ((Listeners.ofAdded twoForClauses).tour entryBelowClause).visited = 4 := by
  have hne : NodeClass.omittedValue ≠ entryBelowClause.nodeClass := by decide
  have ⟨hcalls, hvisited, hother, _⟩ := tour_eq_walk twoForClauses entryBelowClause
  refine ⟨hne, hother [(.rescueClause, "first")] [(.rescueClause, "third")] _ _ _ hne, ?_, ?_⟩
  · rw [hcalls, Node.walk_eq_flatMap_preorder]
    rfl
  · rw [hvisited, Node.count_eq_size]
    rfl

end RubyInlay
