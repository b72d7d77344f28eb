import RubyInlay.Hint
import RubyInlay.Listeners
import RubyInlay.Settings
import RubyInlay.Window

/-! Which nodes of an outline carry a hint, and which hint. A bare rescue clause shows the exception
that it implies, right behind its keyword; an entry without a value shows what its key refers to,
right behind the colon. -/

namespace RubyInlay

/-! ### Hints of single nodes -/

/-- The keyword that a bare clause consists of. -/
def rescueKeyword : String := "rescue"

def rescueHint (span : Span) : Hint where
  line := span.startLine - 1
  character := span.startColumn + rescueKeyword.length
  label := "StandardError"
  tooltip := "StandardError is implied in a bare rescue"

/-- The label for what an entry refers to. -/
def Referent.label : Referent → String
  | methodCall name => name
  | constant name => name
  | localVariable name => name
  | other _ => ""

def Referent.tooltip : Referent → String
  | methodCall name => "This is a method call. Method name: " ++ name
  | constant name => "This is a constant: " ++ name
  | localVariable name => "This is a local variable: " ++ name
  | other _ => ""

/-- The hint stands behind a key of as many columns as its label has characters, and a colon. -/
def valueHint (span : Span) (value : Expression) : Hint where
  line := span.startLine - 1
  character := span.startColumn + value.referent.label.length + 1
  label := value.referent.label
  tooltip := value.referent.tooltip

/-! ### Collectors -/

/-- What a request asks for. -/
structure Collector where
  window : Option Window
  settings : Settings

namespace Collector

/-- The classes of nodes that a collector listens for. -/
def classes : List NodeClass := [.rescueClause, .omittedValue]

/-- The hint of a node, if it carries one that is asked for. -/
def hint? (c : Collector) : Node → Option Hint
  | .rescueClause exceptions span _ =>
    if c.settings.shows .bareRescue ∧ exceptions = [] ∧ span.ShownIn c.window then
      some (rescueHint span)
    else none
  | .omittedValue span value =>
    if c.settings.shows .omittedValue ∧ span.ShownIn c.window then
      some (valueHint span value)
    else none
  | _ => none

end Collector

/-- Adds a listener for each class that collectors listen for. -/
def Listeners.addCollector {α : Type} (ls : Listeners α) (listener : α) : Listeners α :=
  Collector.classes.foldl (·.add · listener) ls

end RubyInlay
