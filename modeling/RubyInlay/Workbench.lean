import RubyInlay.Collector
import RubyInlay.Log

/-! Collectors and probes that share one set of listeners. A probe reports the nodes it is called
for; a collector gathers hints over all tours that follow its making. An identifier stands for the
latest collector made under it, and the earlier ones go on listening. -/

namespace RubyInlay

inductive Listener where
  | probe (tag : String)
  /-- A collector, by the number of collectors made before it. -/
  | collector (index : Nat)
  deriving DecidableEq, Repr

structure Workbench where
  listeners : Listeners Listener
  /-- The collectors in the order of their making, with the hints each has so far. -/
  collectors : List (Collector × List Hint)
  /-- The collector for each identifier, the latest first. -/
  table : List (String × Nat)

namespace Workbench

inductive Step where
  | probe (nodeClass : NodeClass) (tag : String)
  | collector (id : String) (window : Option Window) (configuration : Json)
  | tour (root : Node)
  | inspect (id : String)

inductive Reply where
  | done
  | refused (error : SettingsError)
  | toured (events : List (String × Node)) (log : Log)
  | hints (hints : List Hint)
  | unknownCollector

def start : Workbench := ⟨.empty, [], []⟩

/-- The nodes that probes report. -/
def events (calls : List (Listener × Node)) : List (String × Node) :=
  calls.filterMap fun
    | (.probe tag, n) => some (tag, n)
    | _ => none

/-- The nodes that the collector of a number is called for. -/
def nodesFor (index : Nat) (calls : List (Listener × Node)) : List Node :=
  (calls.filter (·.1 == .collector index)).map (·.2)

def addCollector (w : Workbench) (id : String) (c : Collector) : Workbench where
  listeners := w.listeners.addCollector (.collector w.collectors.length)
  collectors := w.collectors ++ [(c, [])]
  table := (id, w.collectors.length) :: w.table

/-- Each collector looks at the nodes it is called for. -/
def collect (w : Workbench) (calls : List (Listener × Node)) : Workbench :=
  { w with collectors := w.collectors.mapIdx fun i (c, hints) =>
      (c, hints ++ (nodesFor i calls).filterMap c.hint?) }

/-- The hints that the collector kept under an identifier has so far. -/
def hintsOf? (w : Workbench) (id : String) : Option (List Hint) :=
  (List.lookup id w.table).bind fun index => (w.collectors[index]?).map (·.2)

def step (w : Workbench) : Step → Reply × Workbench
  | .probe nodeClass tag =>
    (.done, { w with listeners := w.listeners.add nodeClass (.probe tag) })
  | .collector id window configuration =>
    match Settings.ofJson configuration with
    | .ok settings => (.done, w.addCollector id ⟨window, settings⟩)
    | .error e => (.refused e, w)
  | .tour root =>
    let tour := w.listeners.tour root
    (.toured (events tour.calls) [.visited tour.visited], w.collect tour.calls)
  | .inspect id =>
    match w.hintsOf? id with
    | some hints => (.hints hints, w)
    | none => (.unknownCollector, w)

/-- The replies to a run of steps, in order. -/
def replies (w : Workbench) : List Step → List Reply
  | [] => []
  | s :: steps => (w.step s).1 :: (w.step s).2.replies steps

@[simp] theorem replies_nil (w : Workbench) : w.replies [] = [] := rfl

@[simp] theorem replies_cons (w : Workbench) (s : Step) (steps : List Step) :
    w.replies (s :: steps) = (w.step s).1 :: (w.step s).2.replies steps := rfl

end Workbench

end RubyInlay
