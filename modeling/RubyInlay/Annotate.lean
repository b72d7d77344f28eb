import RubyInlay.Collector
import RubyInlay.Log
import RubyInlay.Outline.Conversion

/-! The hints of a document. -/

namespace RubyInlay

open Source

/-- A source with its tree. -/
structure Document where
  source : String
  root : Tree
  /-- Some part of the source could not be read. -/
  malformed : Bool

namespace Document

/-- The outline, and what is logged about the source. -/
def outline (d : Document) : Node × Log :=
  (.ofTree (.ofString d.source) d.root, if d.malformed then [.malformedSource] else [])

end Document

/-- The hints of a call, and its log. -/
structure Annotated where
  hints : List Hint
  log : Log
  deriving DecidableEq, Repr

/-- The hints that a collector finds in a document, in the order of the text. -/
def annotate (d : Document) (c : Collector) : Annotated :=
  let (root, log) := d.outline
  let tour := (Listeners.empty.addCollector c).tour root
  let hints := tour.calls.filterMap fun (listener, node) => listener.hint? node
  ⟨hints, log ++ [.visited tour.visited, .collected hints.length c.window]⟩

end RubyInlay
