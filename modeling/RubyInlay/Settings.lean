import RubyInlay.Json.Display

/-! The settings of a request and the switches they set. Settings come as an object, or as a list of
entries, each of them a key and a value. A key in a list need not be a text, but only texts are looked
up. -/

namespace RubyInlay

/-! ### Entries -/

/-- What a value stands for as a key. True and false stand for one and zero there. -/
inductive Settings.Key where
  | null
  /-- A number, as a multiple of the least positive one in double precision. -/
  | number (units : Int)
  | infinity (negative : Bool)
  | text (name : String)
  deriving DecidableEq, Repr

/-- A list or an object stands for no key. -/
def Json.key? : Json → Option Settings.Key
  | null => some .null
  | bool value => some (.number (if value then Double.unitsOfOne else 0))
  | int value => some (.number (value * Double.unitsOfOne))
  | float value =>
    if value.rank = Double.infiniteRank then some (.infinity value.negative)
    else
      let units : Int := Double.units value.rank
      some (.number (if value.negative then -units else units))
  | text value => some (.text value)
  | list _ => none
  | object _ => none

/-- Keys and values, in the order in which the keys first came. -/
abbrev Settings.Entries := List (Json × Json)

namespace Settings.Entries

/-- The value under a name. -/
def get? (entries : Entries) (name : String) : Option Json :=
  (entries.find? fun e => e.1.key? = some (.text name)).map (·.2)

/-- A value takes the place of the one under the same key, or comes last. -/
def put (key value : Json) : Entries → Entries
  | [] => [(key, value)]
  | (held, old) :: entries =>
    if held.key? = key.key? then (held, value) :: entries else (held, old) :: put key value entries

def ofObject (entries : Json.Entries) : Entries :=
  entries.map fun e => (.text e.1, e.2)

@[simp] theorem get?_nil (name : String) : get? [] name = none := rfl

theorem get?_cons (e : Json × Json) (entries : Entries) (name : String) :
    get? (e :: entries) name =
      if e.1.key? = some (.text name) then some e.2 else entries.get? name := by
  by_cases h : e.1.key? = some (.text name) <;> simp [get?, h]

@[simp] theorem get?_ofObject (entries : Json.Entries) (name : String) :
    (ofObject entries).get? name = Json.Entries.get? entries name := by
  induction entries with
  | nil => rfl
  | cons e entries ih =>
    rw [ofObject, List.map_cons, get?_cons, Json.Entries.get?, List.lookup_cons]
    by_cases h : e.1 = name
    · simp [Json.key?, h]
    · have hne : (name == e.1) = false := beq_false_of_ne (Ne.symm h)
      simp only [Json.key?, Option.some.injEq, Key.text.injEq, h, if_false, hne]
      exact ih

theorem get?_put (key value : Json) (entries : Entries) (name : String) :
    (put key value entries).get? name =
      if key.key? = some (.text name) then some value else entries.get? name := by
  induction entries with
  | nil => rw [put, get?_cons]
  | cons e entries ih =>
    obtain ⟨held, old⟩ := e
    by_cases hheld : held.key? = key.key?
    · rw [put, if_pos hheld, get?_cons, get?_cons, hheld]
      by_cases hkey : key.key? = some (.text name)
      · rw [if_pos hkey, if_pos hkey]
      · rw [if_neg hkey, if_neg hkey, if_neg hkey]
    · rw [put, if_neg hheld, get?_cons, get?_cons, ih]
      by_cases hkey : key.key? = some (.text name)
      · have hother : held.key? ≠ some (.text name) := fun h => hheld (h.trans hkey.symm)
        rw [if_neg hother, if_pos hkey, if_pos hkey]
      · rw [if_neg hkey, if_neg hkey]

end Settings.Entries

/-! ### Settings -/

structure Settings where
  entries : Settings.Entries
  deriving Inhabited

/-- Why a value cannot serve as settings. -/
inductive SettingsError where
  /-- It is set, but it is no object and has no items. -/
  | withoutItems
  | itemWithoutElements (position : Nat)
  /-- An item has more or fewer elements than a key and a value. -/
  | itemOfLength (position length : Nat)
  /-- A list or an object stands where a key should. -/
  | unsuitableKey
  deriving DecidableEq, Repr

/-- What is reported of an item of another length; the other refusals come without a text. -/
def SettingsError.message? : SettingsError → Option String
  | itemOfLength position length =>
    some ("dictionary update sequence element #" ++ toString position ++ " has length " ++
      toString length ++ "; 2 is required")
  | _ => none

/-- The kinds of hint that can be switched on. -/
inductive Feature where
  | bareRescue
  | omittedValue
  deriving DecidableEq, Repr

def Feature.key : Feature → String
  | bareRescue => "implicitRescue"
  | omittedValue => "implicitHashValue"

namespace Settings

/-- Switches every feature on. -/
def enableAllKey : String := "enableAll"

/-- Whether the editor is offered hints at all. -/
def enabledKey : String := "enabled"

def empty : Settings := ⟨[]⟩

/-- The entry that an item of a list stands for. -/
def entryOf (position : Nat) (item : Json) : Except SettingsError (Json × Json) :=
  match item.elements? with
  | some [key, value] => if key.key?.isSome then .ok (key, value) else .error .unsuitableKey
  | some elements => .error (.itemOfLength position elements.length)
  | none => .error (.itemWithoutElements position)

/-- Puts in the entries of a list, from the item at a position on. -/
def putItems (entries : Entries) (position : Nat) : List Json → Except SettingsError Entries
  | [] => .ok entries
  | item :: items =>
    match entryOf position item with
    | .ok (key, value) => putItems (entries.put key value) (position + 1) items
    | .error e => .error e

/-- What is not set reads as no settings. -/
def ofJson : Json → Except SettingsError Settings
  | .object entries => .ok ⟨.ofObject entries⟩
  | value =>
    if value.isSet then
      match value.elements? with
      | some items => (putItems [] 0 items).map .mk
      | none => .error .withoutItems
    else .ok empty

def isSet (s : Settings) (key : String) : Bool :=
  (s.entries.get? key).any Json.isSet

/-- A switch is on if it is set itself or all are. -/
def isOn (s : Settings) (name : String) : Bool :=
  s.isSet enableAllKey || s.isSet name

def shows (s : Settings) (f : Feature) : Bool :=
  s.isOn f.key

/-- Hints are offered unless the settings say otherwise. -/
def offersHints (s : Settings) : Bool :=
  ((s.entries.get? enabledKey).getD (.bool true)).isSet

/-- The settings of a user who has chosen nothing: offered, and each feature off. -/
def standard : Json.Entries :=
  [(enabledKey, .bool true), (enableAllKey, .bool false),
    (Feature.bareRescue.key, .bool false), (Feature.omittedValue.key, .bool false)]

/-- The settings as logs show them. -/
def display (s : Settings) : String :=
  let entries := s.entries.map fun e => e.1.display ++ ": " ++ e.2.display
  "RequestConfig(\x7b" ++ ", ".intercalate entries ++ "\x7d)"

end Settings

end RubyInlay
