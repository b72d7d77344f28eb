/-! Places in a document and the line window of a request. -/

namespace RubyInlay

/-- The extent of a construct: lines from 1, columns from 0 in bytes. -/
structure Span where
  startLine : Int
  startColumn : Int
  endLine : Int
  endColumn : Int
  deriving DecidableEq, Inhabited, Repr

end RubyInlay
