/-! Hexadecimal digits. -/

namespace RubyInlay.Text

/-- The value of a digit, in either case. -/
def hexDigit? (c : Char) : Option Nat :=
  if c.isDigit then some (c.toNat - '0'.toNat)
  else if 'a' ≤ c ∧ c ≤ 'f' then some (c.toNat - 'a'.toNat + 10)
  else if 'A' ≤ c ∧ c ≤ 'F' then some (c.toNat - 'A'.toNat + 10)
  else none

def isHexDigit (c : Char) : Bool :=
  (hexDigit? c).isSome

/-- The last digits of a number, as many as asked for, in lower case. -/
def hexText : Nat → Nat → List Char
  | 0, _ => []
  | digits + 1, n => hexText digits (n / 16) ++ [Nat.digitChar (n % 16)]

end RubyInlay.Text
