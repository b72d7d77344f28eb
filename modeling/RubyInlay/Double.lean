/-! Numbers in double precision, and the digits that they are shown by. The magnitudes from zero to
infinity are counted in their order; a number is a sign and the rank of a magnitude. It is shown by
the fewest digits that are read back as that number. -/

namespace RubyInlay

/-- The rank of infinity. There are `2 ^ 52` ranks from one power of two to the next. -/
def Double.infiniteRank : Nat := 2047 <<< 52

structure Double where
  negative : Bool
  /-- How many magnitudes are smaller. -/
  rank : Nat
  rank_le : rank ≤ Double.infiniteRank
  deriving DecidableEq, Repr

namespace Double

/-! ### Magnitudes -/

/-- How many places the least positive magnitude has, in binary as in decimal digits. -/
def places : Nat := 1074

/-- How many times the least positive magnitude goes into one. -/
def unitsOfOne : Nat := 1 <<< places

/-- Neighbours at a rank are `2 ^ shift rank` times the least positive magnitude apart. -/
def shift (rank : Nat) : Nat := rank >>> 52 - 1

/-- The magnitude of a rank as a multiple of the least positive one. -/
def units (rank : Nat) : Nat := (rank - shift rank <<< 52) <<< shift rank

/-- The whole number nearest to a quotient; the even one of two that are equally near. -/
def nearestWhole (num den : Nat) : Nat :=
  let below := num / den
  let rest := num % den
  if 2 * rest < den ∨ 2 * rest = den ∧ below % 2 = 0 then below else below + 1

/-- The shift of the magnitudes around a quotient of the least positive one. -/
def shiftAround (num den : Nat) : Nat := Nat.log2 (num / den) - 52

/-- The rank of the magnitude nearest to a quotient. -/
def nearestRank (num den : Nat) : Nat :=
  let num := num * unitsOfOne
  let s := shiftAround num den
  min infiniteRank (s <<< 52 + nearestWhole num (den <<< s))

def tenTo (power : Nat) : Nat := Nat.pow 10 power

/-- The number that `digits / 10 ^ decimals` is read as. -/
def ofDecimal (negative : Bool) (digits decimals : Nat) : Double where
  negative
  rank := nearestRank digits (tenTo decimals)
  rank_le := Nat.min_le_left _ _

/-! ### Digits -/

/-- The magnitude of a rank with all its places, as a multiple of `1 / 10 ^ places`. -/
def exactDigits (rank : Nat) : Nat := units rank * tenTo places / unitsOfOne

/-- Some digits, followed by as many zeros as digits of a magnitude have been dropped, are read back
as that magnitude. -/
def ReadBack (rank dropped digits : Nat) : Prop :=
  nearestRank (digits * tenTo dropped) (tenTo places) = rank

instance (rank dropped digits : Nat) : Decidable (ReadBack rank dropped digits) :=
  inferInstanceAs (Decidable (_ = _))

/-- Digits that are read back as a magnitude without its last ones: those nearest to it, or else
its other neighbour among them. -/
def shortened? (rank dropped : Nat) : Option Nat :=
  let exact := exactDigits rank
  let below := exact / tenTo dropped
  [nearestWhole exact (tenTo dropped), below, below + 1].find? (ReadBack rank dropped ·)

/-- Drops as many of the last digits as can be, up to some number, and says how many it drops. -/
def shortenedUpTo (rank : Nat) : Nat → Nat × Nat
  | 0 => (exactDigits rank, 0)
  | dropped + 1 =>
    ((shortened? rank (dropped + 1)).map (·, dropped + 1)).getD (shortenedUpTo rank dropped)

/-- The fewest digits that are read back, and how many have been dropped behind them. -/
def shortest (rank : Nat) : Nat × Nat :=
  shortenedUpTo rank ((Nat.toDigits 10 (exactDigits rank)).length - 1)

/-! ### Text -/

/-- A power of ten, with two digits at least. -/
def powerText (power : Int) : List Char :=
  let digits := Nat.toDigits 10 power.natAbs
  (if power < 0 then '-' else '+') :: (List.replicate (2 - digits.length) '0' ++ digits)

/-- Digits with a point behind the first `point` of them. A magnitude of `10 ^ 16` or more, or of
less than `1 / 10 ^ 4`, is written with the point behind its first digit and a power of ten. -/
def positioned (digits : List Char) (point : Int) : List Char :=
  if -4 < point ∧ point ≤ 16 then
    let front := List.replicate (1 - point).toNat '0' ++ digits
    let whole := (front ++ List.replicate (point - digits.length).toNat '0').take (max point 1).toNat
    let rest := front.drop (max point 1).toNat
    whole ++ '.' :: if rest = [] then ['0'] else rest
  else
    digits.take 1 ++ (if digits.length = 1 then [] else '.' :: digits.drop 1) ++
      'e' :: powerText (point - 1)

/-- A positive magnitude; its last digit is no zero. -/
def magnitudeText (rank : Nat) : List Char :=
  let (digits, dropped) := shortest rank
  let text := Nat.toDigits 10 digits
  positioned (text.reverse.dropWhile (· = '0')).reverse (text.length + dropped - places)

def text (x : Double) : String :=
  let magnitude :=
    if x.rank = 0 then "0.0"
    else if x.rank = infiniteRank then "inf"
    else String.ofList (magnitudeText x.rank)
  if x.negative then "-" ++ magnitude else magnitude

end Double

end RubyInlay
