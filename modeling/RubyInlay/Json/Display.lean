import RubyInlay.Json
import RubyInlay.Text.Quoted

/-! The one-line display of a value in logs: texts in quotes, `None` for null, `True` and `False`, a
comma and a blank between neighbours, a colon and a blank after a key. -/

namespace RubyInlay.Json

open Text (quoted)

mutual

def display : Json → String
  | null => "None"
  | bool true => "True"
  | bool false => "False"
  | int value => toString value
  | float value => value.text
  | text value => quoted value
  | list items => "[" ++ ", ".intercalate (displayItems items) ++ "]"
  | object entries => "\x7b" ++ ", ".intercalate (displayEntries entries) ++ "\x7d"

def displayItems : List Json → List String
  | [] => []
  | item :: items => display item :: displayItems items

def displayEntries : List (String × Json) → List String
  | [] => []
  | (key, value) :: entries => (quoted key ++ ": " ++ display value) :: displayEntries entries

end

end RubyInlay.Json
