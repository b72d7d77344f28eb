import RubyInlay.Double

/-! JSON values as messages and settings hold them. An integer and a number written with a point are
different things here: `3.0` fills no integer's place. Objects keep the order of their entries. -/

namespace RubyInlay

inductive Json where
  | null
  | bool (value : Bool)
  | int (value : Int)
  /-- A number written with a point. -/
  | float (value : Double)
  | text (value : String)
  | list (items : List Json)
  | object (entries : List (String × Json))
  deriving Inhabited, Repr

namespace Json

instance : Coe String Json := ⟨.text⟩

/-- Whether a value counts as set: nothing, false, zero and what is empty do not. -/
def isSet : Json → Bool
  | null => false
  | bool value => value
  | int value => value != 0
  | float value => value.rank != 0
  | text value => value != ""
  | list items => !items.isEmpty
  | object entries => !entries.isEmpty

/-- The elements that a value consists of: the items of a list, the characters of a text, the keys of
an object. Other values have none. -/
def elements? : Json → Option (List Json)
  | text value => some (value.toList.map fun c => text (String.singleton c))
  | list items => some items
  | object entries => some (entries.map fun e => text e.1)
  | _ => none

/-- The entries of an object. -/
abbrev Entries := List (String × Json)

/-- The value under a key. -/
def Entries.get? (entries : Entries) (key : String) : Option Json :=
  List.lookup key entries

/-- The value under a key, added at the end if there is none. -/
def Entries.addMissing (entries : Entries) (key : String) (value : Json) : Entries :=
  match entries.get? key with
  | some _ => entries
  | none => entries ++ [(key, value)]

/-- The value under a key of an object. -/
def get? : Json → String → Option Json
  | object entries, key => Entries.get? entries key
  | _, _ => none

def int? : Json → Option Int
  | int value => some value
  | _ => none

theorem get?_object (entries : Entries) (key : String) :
    (object entries).get? key = entries.get? key := rfl

theorem Entries.get?_addMissing_of_some {entries : Entries} {key : String} {held value : Json}
    (h : entries.get? key = some held) : entries.addMissing key value = entries := by
  simp [addMissing, h]

theorem Entries.addMissing_of_none {entries : Entries} {key : String} {value : Json}
    (h : entries.get? key = none) : entries.addMissing key value = entries ++ [(key, value)] := by
  simp [addMissing, h]

/-- The key is there then, with the value that it had or else with the one that is added. -/
theorem Entries.get?_addMissing_self (entries : Entries) (key : String) (value : Json) :
    (entries.addMissing key value).get? key = some ((entries.get? key).getD value) := by
  cases h : entries.get? key with
  | some held => rw [get?_addMissing_of_some h, h, Option.getD_some]
  | none =>
    have hl : List.lookup key entries = none := h
    simp [addMissing, get?, List.lookup_append, hl]

theorem Entries.get?_addMissing_of_ne {entries : Entries} {key other : String} {value : Json}
    (h : other ≠ key) : (entries.addMissing key value).get? other = entries.get? other := by
  cases hkey : entries.get? key with
  | some held => rw [get?_addMissing_of_some hkey]
  | none =>
    have hnone : List.lookup other [(key, value)] = none := by
      rw [List.lookup_cons, beq_false_of_ne h]
      rfl
    rw [addMissing_of_none hkey, get?, List.lookup_append, hnone, Option.or_none, get?]

end Json

end RubyInlay
