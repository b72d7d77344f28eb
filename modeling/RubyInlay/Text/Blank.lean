import RubyInlay.Text.CharSet

/-! Blank characters, and the removal of unwanted characters from the ends of a text. -/

namespace RubyInlay.Text

/-- The characters with the White_Space property, and the four information separators. -/
def blanks : CharSet :=
  [⟨0x09, 0x0D, 1⟩, ⟨0x1C, 0x20, 1⟩, ⟨0x85, 0x85, 1⟩, ⟨0xA0, 0xA0, 1⟩, ⟨0x1680, 0x1680, 1⟩,
   ⟨0x2000, 0x200A, 1⟩, ⟨0x2028, 0x2029, 1⟩, ⟨0x202F, 0x202F, 1⟩, ⟨0x205F, 0x205F, 1⟩,
   ⟨0x3000, 0x3000, 1⟩]

def isBlank (c : Char) : Bool :=
  blanks.contains c

variable {α : Type} (p : α → Bool)

/-- A list without the elements at its end that satisfy `p`. -/
def dropEndWhile (l : List α) : List α :=
  (l.reverse.dropWhile p).reverse

/-- A list without the elements at either end that satisfy `p`. -/
def trim (l : List α) : List α :=
  dropEndWhile p (l.dropWhile p)

@[simp] theorem dropEndWhile_nil : dropEndWhile p [] = [] := rfl

@[simp] theorem dropEndWhile_concat_of_pos {p : α → Bool} {x : α} (h : p x = true) (l : List α) :
    dropEndWhile p (l ++ [x]) = dropEndWhile p l := by
  simp [dropEndWhile, h]

@[simp] theorem dropEndWhile_concat_of_neg {p : α → Bool} {x : α} (h : p x = false) (l : List α) :
    dropEndWhile p (l ++ [x]) = l ++ [x] := by
  simp [dropEndWhile, h]

end RubyInlay.Text
