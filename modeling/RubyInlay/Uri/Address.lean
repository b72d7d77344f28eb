import RubyInlay.Text.Fields
import RubyInlay.Text.Hex

/-! The numeric addresses that a host can be written as. -/

namespace RubyInlay.Uri.Address

open Text (fields cutAt isHexDigit)

/-! ### Version 4 -/

/-- A number up to 255 without leading zeros. -/
def isOctet (text : List Char) : Bool :=
  text != [] && text.all Char.isDigit && text.length ≤ 3 &&
    (text == ['0'] || text.head? != some '0') &&
    text.foldl (fun n c => 10 * n + (c.toNat - '0'.toNat)) 0 ≤ 255

/-- Four octets between points. -/
def isVersion4 (text : List Char) : Bool :=
  (fields '.' text).length == 4 && (fields '.' text).all isOctet

/-! ### Version 6 -/

/-- Sixteen bits of an address, in up to four digits. -/
def isGroup (text : List Char) : Bool :=
  text != [] && text.length ≤ 4 && text.all isHexDigit

/-- An address of version 4 at the end stands for the last two groups. -/
def spellOut (groups : List (List Char)) : Option (List (List Char)) :=
  match groups.getLast? with
  | some last =>
    if last.contains '.' then
      if isVersion4 last then some (groups.dropLast ++ [['0'], ['0']]) else none
    else some groups
  | none => none

/-- The groups on one side of a gap. A side that is left empty holds none. -/
def side (groups : List (List Char)) : List (List Char) :=
  if groups == [[]] then [] else groups

/-- The position of the gap between two colons, ends apart. -/
def gap? (groups : List (List Char)) : Option Nat :=
  (groups.drop 1).dropLast.idxOf? [] |>.map (· + 1)

/-- Eight groups between colons, or fewer with one gap that stands for the rest. -/
def areGroups (groups : List (List Char)) : Bool :=
  match gap? groups with
  | none => groups.length == 8 && groups.all isGroup
  | some i =>
    let given := side (groups.take i) ++ side (groups.drop (i + 1))
    given.length ≤ 7 && given.all isGroup

/-- A zone behind a percent sign is a word without another one. -/
def hasSoundZone (text : List Char) : Bool :=
  let (address, zone) := cutAt '%' text
  address == text || zone != [] && !zone.contains '%'

def isVersion6 (text : List Char) : Bool :=
  hasSoundZone text && (spellOut (fields ':' (cutAt '%' text).1)).any areGroups

/-! ### Later versions -/

/-- A `v`, a version in hexadecimal, a point and some text. -/
def isFuture : List Char → Bool
  | 'v' :: text =>
    text.takeWhile isHexDigit != [] &&
      match text.dropWhile isHexDigit with
      | '.' :: _ :: _ => true
      | _ => false
  | _ => false

end RubyInlay.Uri.Address
