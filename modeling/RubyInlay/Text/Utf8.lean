/-! UTF-8 in both directions. Encoding is the standard one. Decoding accepts any bytes: a run of
bytes that begins some well-formed sequence and is cut short costs one replacement character, and
so does a byte that begins none. The byte that cuts a run short is read afresh. -/

namespace RubyInlay.Text.Utf8

def encode (text : List Char) : List UInt8 :=
  text.flatMap String.utf8EncodeChar

@[simp] theorem encode_nil : encode [] = [] := rfl

@[simp] theorem encode_cons (c : Char) (text : List Char) :
    encode (c :: text) = String.utf8EncodeChar c ++ encode text := rfl

@[simp] theorem encode_append (s t : List Char) : encode (s ++ t) = encode s ++ encode t := by
  simp [encode]

/-- Stands for bytes that spell no character. -/
def replacement : Char := '\uFFFD'

/-- A sequence that has begun: the value of its bits so far, the bounds of the byte it needs next,
and how many more bytes follow that one. -/
structure Partial where
  value : Nat
  low : Nat
  high : Nat
  after : Nat
  deriving DecidableEq, Repr

/-- What a byte says at the start of a sequence. The narrowed bounds of the second byte exclude
overlong forms, surrogates and numbers past the last character. -/
def start (b : Nat) : List Char × Option Partial :=
  if b < 0x80 then ([Char.ofNat b], none)
  else if b < 0xC2 then ([replacement], none)
  else if b < 0xE0 then ([], some ⟨b - 0xC0, 0x80, 0xBF, 0⟩)
  else if b = 0xE0 then ([], some ⟨0, 0xA0, 0xBF, 1⟩)
  else if b = 0xED then ([], some ⟨0xD, 0x80, 0x9F, 1⟩)
  else if b < 0xF0 then ([], some ⟨b - 0xE0, 0x80, 0xBF, 1⟩)
  else if b = 0xF0 then ([], some ⟨0, 0x90, 0xBF, 2⟩)
  else if b < 0xF4 then ([], some ⟨b - 0xF0, 0x80, 0xBF, 2⟩)
  else if b = 0xF4 then ([], some ⟨4, 0x80, 0x8F, 2⟩)
  else ([replacement], none)

/-- A sequence after a byte within its bounds. -/
def Partial.extend (p : Partial) (b : Nat) : List Char × Option Partial :=
  let value := p.value * 0x40 + (b - 0x80)
  match p.after with
  | 0 => ([Char.ofNat value], none)
  | n + 1 => ([], some ⟨value, 0x80, 0xBF, n⟩)

/-- The characters one byte settles, and the sequence that stays open after it. -/
def step : Option Partial → Nat → List Char × Option Partial
  | none, b => start b
  | some p, b =>
    if p.low ≤ b ∧ b ≤ p.high then p.extend b
    else (replacement :: (start b).1, (start b).2)

/-- The characters of the bytes that follow an open sequence. -/
def decodeFrom : Option Partial → List UInt8 → List Char
  | none, [] => []
  | some _, [] => [replacement]
  | pending, b :: bytes =>
    (step pending b.toNat).1 ++ decodeFrom (step pending b.toNat).2 bytes

def decode (bytes : List UInt8) : List Char :=
  decodeFrom none bytes

@[simp] theorem decode_nil : decode [] = [] := rfl

end RubyInlay.Text.Utf8
