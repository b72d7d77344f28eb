import RubyInlay.Json

/-! Inlay hints as an editor shows them. -/

namespace RubyInlay

/-- A label at a line and a character, both from 0, and the tooltip behind it. -/
structure Hint where
  line : Int
  character : Int
  label : String
  tooltip : String
  deriving DecidableEq, Repr

/-- The hint in a reply. A blank sets it off from the text before it. -/
def Hint.toJson (h : Hint) : Json :=
  .object
    [("position", .object [("line", .int h.line), ("character", .int h.character)]),
     ("label", .text h.label), ("paddingLeft", .bool true), ("tooltip", .text h.tooltip)]

end RubyInlay
