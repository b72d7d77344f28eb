/-! Texts cut at marks. -/

namespace RubyInlay.Text

/-- The parts of a text between the marks in it: one more than there are marks. -/
def fields (mark : Char) : List Char → List (List Char)
  | [] => [[]]
  | c :: text =>
    if c = mark then [] :: fields mark text
    else
      match fields mark text with
      | f :: fs => (c :: f) :: fs
      | [] => [[c]]

@[simp] theorem fields_nil (mark : Char) : fields mark [] = [[]] := rfl

@[simp] theorem fields_mark (mark : Char) (text : List Char) :
    fields mark (mark :: text) = [] :: fields mark text := by
  simp [fields]

/-- What follows the last mark, or the whole text if there is none. -/
def afterLast (mark : Char) (text : List Char) : List Char :=
  (text.reverse.takeWhile (· != mark)).reverse

/-- All up to the last mark, that one included, or nothing if there is none. -/
def upToLast (mark : Char) (text : List Char) : List Char :=
  (text.reverse.dropWhile (· != mark)).reverse

/-- What stands before the first mark, and what follows it; nothing follows if there is none. -/
def cutAt (mark : Char) (text : List Char) : List Char × List Char :=
  (text.takeWhile (· != mark), (text.dropWhile (· != mark)).drop 1)

end RubyInlay.Text
