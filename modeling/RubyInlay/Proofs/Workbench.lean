import RubyInlay.Proofs.History
import RubyInlay.Proofs.SinglePass
import RubyInlay.Workbench

/-! Collectors that share their listeners. A collector is called once for each node it listens for,
whatever else has been added, so its hints are those of the outlines that have been toured since it
was made, in order. Main statement: that is what an inspection finds under an identifier, for the
latest collector made under it, and a collector that is refused changes nothing. -/

namespace RubyInlay

/-! ### Listeners -/

namespace Listeners

variable {α : Type} [DecidableEq α]

theorem count_ofClass_add (ls : Listeners α) (c c' : NodeClass) (l l' : α) :
    ((ls.add c l).ofClass c').count l' =
      (ls.ofClass c').count l' + if c = c' ∧ l = l' then 1 else 0 := by
  rw [ofClass_add, List.count_append]
  by_cases hc : c = c' <;> by_cases hl : l = l' <;> simp [hc, hl]

theorem count_ofClass_addCollector (ls : Listeners α) (c : NodeClass) (l l' : α) :
    ((ls.addCollector l).ofClass c).count l' =
      (ls.ofClass c).count l' + if l = l' ∧ c ∈ Collector.classes then 1 else 0 := by
  simp only [addCollector, Collector.classes, List.foldl_cons, List.foldl_nil, count_ofClass_add]
  by_cases hl : l = l' <;> cases c <;> simp [hl]

end Listeners

namespace Workbench

variable {w w' : Workbench} {before steps : List Step} {x : Step} {id : String} {c : Collector}
  {hints : List Hint} {i : Nat}

/-! ### Histories -/

/-- The collector that a step makes, with the identifier it goes by. -/
def Step.made? : Step → Option (String × Collector)
  | .collector id window configuration =>
    match Settings.ofJson configuration with
    | .ok settings => some (id, ⟨window, settings⟩)
    | .error _ => none
  | _ => none

def Step.Makes (id : String) (x : Step) : Prop :=
  ∃ c, x.made? = some (id, c)

/-- The hints that a collector finds on a step: those of the nodes of the outline that is toured. -/
def Step.hintsFor (c : Collector) : Step → List Hint
  | .tour root => root.preorder.filterMap c.hint?
  | _ => []

/-- What is left behind by some steps. -/
def after (w : Workbench) (steps : List Step) : Workbench :=
  steps.foldl (fun w x => (w.step x).2) w

@[simp] theorem after_nil (w : Workbench) : w.after [] = w := rfl

@[simp] theorem after_cons (w : Workbench) (x : Step) (steps : List Step) :
    w.after (x :: steps) = (w.step x).2.after steps := rfl

theorem after_append (w : Workbench) (xs ys : List Step) :
    w.after (xs ++ ys) = (w.after xs).after ys := List.foldl_append

theorem replies_append (w : Workbench) (xs ys : List Step) :
    w.replies (xs ++ ys) = w.replies xs ++ (w.after xs).replies ys := by
  induction xs generalizing w with
  | nil => rfl
  | cons x xs ih => simp [ih]

theorem length_replies (w : Workbench) (steps : List Step) :
    (w.replies steps).length = steps.length := by
  induction steps generalizing w with
  | nil => rfl
  | cons x steps ih => simp [ih]

theorem getElem?_replies (w : Workbench) (before : List Step) (x : Step) (later : List Step) :
    (w.replies (before ++ x :: later))[before.length]? = some ((w.after before).step x).1 := by
  rw [replies_append, List.getElem?_append_right (by rw [length_replies]), length_replies,
    Nat.sub_self]
  rfl

/-! ### Calls -/

/-- Each collector listens once for each of its classes, and for no other. -/
def Wired (w : Workbench) : Prop :=
  ∀ i cls, (w.listeners.ofClass cls).count (.collector i) =
    if i < w.collectors.length ∧ cls ∈ Collector.classes then 1 else 0

theorem wired_start : Wired start := by
  intro i cls
  simp [start]

/-- A node calls a collector as often as the collector listens for its class. -/
theorem nodesFor_callsAt (ls : Listeners Listener) (n : Node) :
    nodesFor i (ls.callsAt n) =
      List.replicate ((ls.ofClass n.nodeClass).count (.collector i)) n := by
  simp only [nodesFor, Listeners.callsAt]
  induction ls.ofClass n.nodeClass with
  | nil => rfl
  | cons l ls ih => by_cases hl : l = .collector i <;> simp [hl, ih, List.replicate_succ]

theorem nodesFor_append (calls calls' : List (Listener × Node)) :
    nodesFor i (calls ++ calls') = nodesFor i calls ++ nodesFor i calls' := by
  simp [nodesFor]

/-- A wired collector sees all nodes of a tour that can have a hint, in order. -/
theorem Wired.filterMap_nodesFor (h : w.Wired) (hi : i < w.collectors.length) (c : Collector)
    (root : Node) :
    (nodesFor i (w.listeners.tour root).calls).filterMap c.hint? =
      root.preorder.filterMap c.hint? := by
  rw [Listeners.tour, Node.visits_eq_preorder]
  induction root.preorder with
  | nil => rfl
  | cons n ns ih =>
    rw [List.flatMap_cons, nodesFor_append, List.filterMap_append, ih, filterMap_cons_eq_append,
      nodesFor_callsAt, h]
    by_cases hn : n.nodeClass ∈ Collector.classes
    · rw [if_pos ⟨hi, hn⟩]
      cases hc : c.hint? n <;> simp [hc]
    · rw [if_neg fun h => hn h.2]
      simp [hint?_eq_none_of_class c hn]

/-! ### Steps -/

theorem hintsFor_eq_nil (h : ∀ root, x ≠ .tour root) (c : Collector) : x.hintsFor c = [] := by
  cases x with
  | tour root => exact absurd rfl (h root)
  | probe | collector | inspect => rfl

theorem ne_tour_of_made? {made : String × Collector} (h : x.made? = some made) (root : Node) :
    x ≠ .tour root := by
  rintro rfl
  cases h

theorem step_of_made? (h : x.made? = some (id, c)) : w.step x = (.done, w.addCollector id c) := by
  cases x with
  | collector id' window configuration =>
    cases hs : Settings.ofJson configuration with
    | ok settings =>
      obtain ⟨rfl, rfl⟩ : id' = id ∧ ⟨window, settings⟩ = c := by simpa [Step.made?, hs] using h
      simp only [step, hs]
    | error e => simp [Step.made?, hs] at h
  | probe | tour | inspect => cases h

/-- A collector is refused if its settings are. -/
theorem step_of_refused {window : Option Window} {configuration : Json} {e : SettingsError}
    (h : Settings.ofJson configuration = .error e) :
    w.step (.collector id window configuration) = (.refused e, w) := by
  simp only [step, h]

/-- What a step can do to a workbench. -/
inductive Change (w : Workbench) : Step → Workbench → Prop
  | listening (cls : NodeClass) (tag : String) :
      Change w (.probe cls tag) { w with listeners := w.listeners.add cls (.probe tag) }
  | made {x : Step} {id : String} {c : Collector} (h : x.made? = some (id, c)) :
      Change w x (w.addCollector id c)
  | toured (root : Node) : Change w (.tour root) (w.collect (w.listeners.tour root).calls)
  | nothing {x : Step} (h : ∀ root, x ≠ .tour root) : Change w x w

theorem change_step (w : Workbench) (x : Step) : Change w x (w.step x).2 := by
  cases x with
  | probe cls tag => exact .listening cls tag
  | tour root => exact .toured root
  | inspect id =>
    have hs : (w.step (.inspect id)).2 = w := by
      simp only [step]; split <;> rfl
    rw [hs]
    exact .nothing (by simp)
  | collector id window configuration =>
    cases hs : Settings.ofJson configuration with
    | ok settings =>
      have hm : (Step.collector id window configuration).made? = some (id, ⟨window, settings⟩) := by
        simp only [Step.made?, hs]
      rw [step_of_made? hm]
      exact .made hm
    | error e =>
      rw [step_of_refused hs]
      exact .nothing (by simp)

theorem Wired.change (h : w.Wired) (hc : Change w x w') : w'.Wired := by
  intro i cls
  cases hc with
  | listening => simpa [Listeners.count_ofClass_add] using h i cls
  | made =>
    simp only [addCollector, Listeners.count_ofClass_addCollector, h i cls,
      Listener.collector.injEq, List.length_append, List.length_singleton]
    by_cases hcls : cls ∈ Collector.classes
    · simp only [hcls, and_true]
      split_ifs <;> omega
    · simp [hcls]
  | toured => simpa [collect] using h i cls
  | nothing => exact h i cls

theorem hintsOf?_eq_some : w.hintsOf? id = some hints ↔
    ∃ i c, List.lookup id w.table = some i ∧ w.collectors[i]? = some (c, hints) := by
  simp [hintsOf?, Option.bind_eq_some_iff]

/-- A collector is left as it is, with the hints it finds on the step. -/
theorem Wired.collectors_change (h : w.Wired) (hi : w.collectors[i]? = some (c, hints))
    (hc : Change w x w') : w'.collectors[i]? = some (c, hints ++ x.hintsFor c) := by
  have hlt : i < w.collectors.length := (List.getElem?_eq_some_iff.1 hi).1
  cases hc with
  | listening => simpa [Step.hintsFor] using hi
  | made hm =>
    simpa [addCollector, hintsFor_eq_nil (ne_tour_of_made? hm), List.getElem?_append_left hlt]
      using hi
  | toured root =>
    simp only [collect, List.getElem?_mapIdx, hi, Option.map_some, h.filterMap_nodesFor hlt,
      Step.hintsFor]
  | nothing ht => simpa [hintsFor_eq_nil ht] using hi

/-- An identifier stands for the same collector until another is made under it. -/
theorem lookup_change (hx : ¬ x.Makes id) (hc : Change w x w') :
    List.lookup id w'.table = List.lookup id w.table := by
  cases hc with
  | @made _ id' c hm =>
    have hne : (id == id') = false := beq_eq_false_iff_ne.2 fun he => hx ⟨c, he ▸ hm⟩
    simp only [addCollector, List.lookup_cons, hne]
  | listening | toured | nothing => rfl

/-! ### Runs -/

theorem wired_after (h : w.Wired) (steps : List Step) : (w.after steps).Wired := by
  induction steps generalizing w with
  | nil => exact h
  | cons x steps ih => exact ih (h.change (w.change_step x))

theorem Wired.collectors_after (h : w.Wired) (hc : w.collectors[i]? = some (c, hints))
    (steps : List Step) :
    (w.after steps).collectors[i]? = some (c, hints ++ steps.flatMap (·.hintsFor c)) := by
  induction steps generalizing w hints with
  | nil => simpa using hc
  | cons x steps ih =>
    simpa using ih (h.change (w.change_step x)) (h.collectors_change hc (w.change_step x))

theorem lookup_after (hs : ∀ x ∈ steps, ¬ x.Makes id) :
    List.lookup id (w.after steps).table = List.lookup id w.table := by
  induction steps generalizing w with
  | nil => rfl
  | cons x steps ih =>
    rw [after_cons, ih fun y hy => hs y (List.mem_cons_of_mem _ hy),
      lookup_change (hs x List.mem_cons_self) (w.change_step x)]

/-- The hints found under an identifier are those of the steps since its latest collector was
made. -/
theorem hintsOf?_after {earlier since : List Step} (h : Latest (·.Makes id) before earlier x since)
    (hx : x.made? = some (id, c)) :
    (start.after before).hintsOf? id = some (since.flatMap (·.hintsFor c)) := by
  have hw : ((start.after earlier).addCollector id c).Wired :=
    (wired_after wired_start earlier).change (.made hx)
  have hi : ((start.after earlier).addCollector id c).collectors[
      (start.after earlier).collectors.length]? = some (c, []) := by
    simp [addCollector]
  rw [h.split, after_append, after_cons, step_of_made? hx, hintsOf?_eq_some]
  refine ⟨(start.after earlier).collectors.length, c, ?_, ?_⟩
  · rw [lookup_after h.last]
    simp [addCollector]
  · simpa using hw.collectors_after hi since

/-- What an inspection replies after some steps. -/
theorem reply_inspect {earlier since : List Step} (h : Latest (·.Makes id) before earlier x since)
    (hx : x.made? = some (id, c)) (later : List Step) :
    (start.replies (before ++ .inspect id :: later))[before.length]? =
      some (.hints (since.flatMap (·.hintsFor c))) := by
  have hr : ((start.after before).step (.inspect id)).1 =
      .hints (since.flatMap (·.hintsFor c)) := by
    simp only [step, hintsOf?_after h hx]
  rw [getElem?_replies, hr]

/-! ### Collectors -/

theorem exists_made (h : ∃ x ∈ before, x.Makes id) : ∃ earlier x c since,
    Latest (·.Makes id) before earlier x since ∧ x.made? = some (id, c) := by
  obtain ⟨earlier, x, since, hl⟩ := exists_latest h
  obtain ⟨c, hc⟩ := hl.holds
  exact ⟨earlier, x, c, since, hl, hc⟩

theorem not_makes_inspect (id' : String) : ¬ (Step.inspect id').Makes id := by
  rintro ⟨c, hc⟩
  cases hc

/-- An inspection finds, for the latest collector made under an identifier, the hints of the
outlines toured since, as that collector alone would show them. So it finds the hints of an earlier
inspection and those of the tours in between, and a refused collector leaves no trace. -/
theorem collectors_independent :
    (∀ (before later : List Step) (id : String), (∃ x ∈ before, x.Makes id) →
      ∃ earlier x c since, Latest (·.Makes id) before earlier x since ∧ x.made? = some (id, c) ∧
        (start.replies (before ++ .inspect id :: later))[before.length]? =
          some (.hints (since.flatMap (·.hintsFor c)))) ∧
    (∀ (before between later : List Step) (id : String), (∃ x ∈ before, x.Makes id) →
      (∀ x ∈ between, ¬ x.Makes id) →
      let replies := start.replies (before ++ .inspect id :: (between ++ .inspect id :: later))
      ∃ hints more, replies[before.length]? = some (.hints hints) ∧
        replies[before.length + 1 + between.length]? = some (.hints (hints ++ more)) ∧
        ((∀ root, .tour root ∉ between) → more = [])) ∧
    ∀ (before later : List Step) (id : String) (window : Option Window) (configuration : Json)
      (e : SettingsError), Settings.ofJson configuration = .error e →
      start.after (before ++ [.collector id window configuration]) = start.after before ∧
        start.replies (before ++ .collector id window configuration :: later) =
          (start.replies (before ++ later)).insertIdx before.length (.refused e) := by
  refine ⟨fun before later id h => ?_, fun before between later id h hb => ?_,
    fun before later id window configuration e he => ⟨?_, ?_⟩⟩
  · obtain ⟨earlier, x, c, since, hl, hx⟩ := exists_made h
    exact ⟨earlier, x, c, since, hl, hx, reply_inspect hl hx later⟩
  · obtain ⟨earlier, x, c, since, hl, hx⟩ := exists_made h
    have hnone : ∀ y ∈ Step.inspect id :: between, ¬ y.Makes id :=
      List.forall_mem_cons.2 ⟨not_makes_inspect id, hb⟩
    refine ⟨since.flatMap (·.hintsFor c), between.flatMap (·.hintsFor c),
      reply_inspect hl hx _, ?_, fun ht => ?_⟩
    · have hagain := reply_inspect (hl.append hnone) hx later
      rw [List.flatMap_append, List.flatMap_cons, hintsFor_eq_nil (by simp) c, List.nil_append,
        List.length_append, List.length_cons] at hagain
      rw [← hagain]
      simp [Nat.add_assoc, Nat.add_comm 1]
    · rw [List.flatMap_eq_nil_iff]
      intro y hy
      exact hintsFor_eq_nil (fun root hr => ht root (hr ▸ hy)) c
  · rw [after_append, after_cons, step_of_refused he, after_nil]
  · rw [replies_append, replies_append, replies_cons, step_of_refused he]
    nth_rewrite 1 [← length_replies start before]
    exact (List.modifyTailIdx_add _ 0 _ _).symm

/-! A collector `a` is made under a list of entries and an outline toured. Then a second collector
comes, a third one for `a` is refused, as a text holds no entries, and the outline is toured again. -/

def clauseAlone : Node := .rescueClause [] ⟨2, 0, 3, 4⟩ []

def showingAll : Json := .object [("enableAll", .bool true)]

def entryShowingAll : Json := .list [.list ["enableAll", .bool true]]

def oneCollector : List Step := [.collector "a" none entryShowingAll, .tour clauseAlone]

def sharedListeners : List Step :=
  [.collector "b" none showingAll, .collector "a" none (.text "ab"), .tour clauseAlone]

theorem refused_collector_keeps_identifier :
    (∃ x ∈ oneCollector, x.Makes "a") ∧ (∀ x ∈ sharedListeners, ¬ x.Makes "a") ∧
    Settings.ofJson (.text "ab") = .error (.itemOfLength 0 1) ∧
    (start.replies (oneCollector ++ [.inspect "a"]))[2]? =
      some (.hints [rescueHint ⟨2, 0, 3, 4⟩]) ∧
    (∃ earlier x c since, Latest (·.Makes "a") oneCollector earlier x since ∧
      x.made? = some ("a", c) ∧ (start.replies (oneCollector ++ [.inspect "a"]))[2]? =
        some (.hints (since.flatMap (·.hintsFor c)))) ∧
    (let replies := start.replies
        (oneCollector ++ .inspect "a" :: (sharedListeners ++ [.inspect "a"]))
      ∃ hints more, replies[2]? = some (.hints hints) ∧
        replies[6]? = some (.hints (hints ++ more)) ∧
        ((∀ root, .tour root ∉ sharedListeners) → more = [])) ∧
    start.after (oneCollector ++ [.collector "a" none (.text "ab")]) = start.after oneCollector ∧
    start.replies (oneCollector ++ .collector "a" none (.text "ab") :: sharedListeners) =
      (start.replies (oneCollector ++ sharedListeners)).insertIdx 2
        (.refused (.itemOfLength 0 1)) := by
  have hmade : ∃ x ∈ oneCollector, x.Makes "a" := ⟨_, List.mem_cons_self, _, rfl⟩
  have hrefused : Settings.ofJson (.text "ab") = .error (.itemOfLength 0 1) := rfl
  have hshowing : Settings.ofJson showingAll = .ok ⟨[("enableAll", .bool true)]⟩ := rfl
  have hnone : ∀ x ∈ sharedListeners, ¬ x.Makes "a" := by
    simp [sharedListeners, Step.Makes, Step.made?, hshowing, hrefused]
  have hlatest : Latest (·.Makes "a") oneCollector [] (.collector "a" none entryShowingAll)
      [.tour clauseAlone] := ⟨rfl, ⟨_, rfl⟩, by simp [Step.Makes, Step.made?]⟩
  exact ⟨hmade, hnone, hrefused, reply_inspect hlatest rfl [],
    collectors_independent.1 oneCollector [] "a" hmade,
    collectors_independent.2.1 oneCollector sharedListeners [] "a" hmade hnone,
    collectors_independent.2.2 oneCollector sharedListeners "a" none (.text "ab") _ hrefused⟩

end Workbench

end RubyInlay
