import RubyInlay.Window

/-! What is reported while a request is answered. -/

namespace RubyInlay

inductive Level where
  | debug | info | warning | error
  deriving DecidableEq, Repr

/-- The events that are logged. -/
inductive LogEntry where
  /-- The source is not well-formed, so its tree may miss something. -/
  | malformedSource
  | visited (nodes : Nat)
  | collected (hints : Nat) (window : Option Window)
  | requestFailed (uri reason : String)
  /-- The provider goes out among the experimental capabilities. -/
  | announced
  deriving DecidableEq, Repr

namespace LogEntry

def level : LogEntry → Level
  | malformedSource => .debug
  | visited _ => .debug
  | collected _ _ => .debug
  | requestFailed _ _ => .error
  | announced => .info

def windowText : Option Window → String
  | some window => window.display
  | none => "None"

def text : LogEntry → String
  | malformedSource => "source has syntax errors, hints may be partial"
  | visited nodes => "dispatched " ++ toString nodes ++ " nodes"
  | collected hints window => toString hints ++ " hints in range " ++ windowText window
  | requestFailed uri reason => "failed for " ++ uri ++ ": " ++ reason
  | announced => "announcing inlayHintProvider via experimental fallback"

/-- The line in the log, under the name of the program. -/
def message (e : LogEntry) : String :=
  "pylsp_ruby_inlay_hints: " ++ e.text

end LogEntry

/-- The entries of one call, in order. -/
abbrev Log := List LogEntry

end RubyInlay
