import RubyInlay.Json
import RubyInlay.Span

/-! The window of a request: the part of the document that the editor shows. Only its lines decide
what is inside. -/

namespace RubyInlay

/-- Lines and characters from 0, the end line included. -/
structure Window where
  startLine : Int
  startCharacter : Int
  endLine : Int
  endCharacter : Int
  deriving DecidableEq, Inhabited, Repr

namespace Window

/-- The end line of a window that names none. -/
def lastLine : Int := 1000000000

/-- The integer under `key` of a position, if there is one. -/
def coordinate (position : Option Json) (key : String) (default : Int) : Int :=
  (((position.bind (·.get? key)).bind Json.int?).getD default)

/-- The window of a range in a request. What is missing or no integer reads as the widest choice,
and anything but an object as the whole document. -/
def ofJson? : Json → Option Window
  | .object entries =>
    let start := Json.Entries.get? entries "start"
    let stop := Json.Entries.get? entries "end"
    some
      ⟨coordinate start "line" 0, coordinate start "character" 0,
       coordinate stop "line" lastLine, coordinate stop "character" 0⟩
  | _ => none

/-- A line, counted from 0, inside the window. -/
def HasLine (w : Window) (line : Int) : Prop :=
  w.startLine ≤ line ∧ line ≤ w.endLine

instance (w : Window) (line : Int) : Decidable (w.HasLine line) :=
  inferInstanceAs (Decidable (_ ∧ _))

/-- The window as logs show it. -/
def display (w : Window) : String :=
  "RequestedRange(start_line=" ++ toString w.startLine ++
    ", start_character=" ++ toString w.startCharacter ++
    ", end_line=" ++ toString w.endLine ++
    ", end_character=" ++ toString w.endCharacter ++ ")"

end Window

/-- The lines at both ends of a span are inside the window. Without a window all spans are
shown. -/
def Span.ShownIn (s : Span) (window : Option Window) : Prop :=
  ∀ w ∈ window, w.HasLine (s.startLine - 1) ∧ w.HasLine (s.endLine - 1)

instance (s : Span) (window : Option Window) : Decidable (s.ShownIn window) :=
  match window with
  | none => isTrue (by simp [Span.ShownIn])
  | some w => decidable_of_iff (w.HasLine (s.startLine - 1) ∧ w.HasLine (s.endLine - 1))
      (by simp [Span.ShownIn])

@[simp] theorem Span.shownIn_none (s : Span) : s.ShownIn none := by
  simp [Span.ShownIn]

@[simp] theorem Span.shownIn_some (s : Span) (w : Window) :
    s.ShownIn (some w) ↔ w.HasLine (s.startLine - 1) ∧ w.HasLine (s.endLine - 1) := by
  simp [Span.ShownIn]

end RubyInlay
