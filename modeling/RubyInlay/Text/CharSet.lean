/-! Sets of characters written as stretches of the code space. -/

namespace RubyInlay.Text

/-- Every `step`-th number from `first` to `last`. -/
structure Stretch where
  first : Nat
  last : Nat
  step : Nat
  deriving DecidableEq, Repr

def Stretch.contains (s : Stretch) (n : Nat) : Bool :=
  s.first ≤ n && n ≤ s.last && (n - s.first) % s.step == 0

/-- A set of characters, as the stretches of their numbers. -/
abbrev CharSet := List Stretch

def CharSet.contains (set : CharSet) (c : Char) : Bool :=
  List.any set (·.contains c.toNat)

end RubyInlay.Text
