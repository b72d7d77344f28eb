import RubyInlay.Proofs.History
import RubyInlay.Settings

/-! What configurations are accepted, and what they set. A list is accepted if each of its items is an
entry, a key and a value in whatever form, and a later entry overrides an earlier one under the same
key. Main statements: a configuration is accepted exactly if it is an object, such a list, or not set;
under a name it has then the value that it gives that name last; and a list is refused for the first
of its items that is no entry. -/

namespace RubyInlay

open Settings

variable {config item : Json} {items : List Json} {entry : Json × Json} {entries entries' : Entries}
  {settings : Settings} {position : ℕ}

/-! ### Configurations -/

/-- An item consists of a key and a value. -/
def Json.IsEntry (item : Json) : Prop :=
  ∃ key value, item.elements? = some [key, value] ∧ key.key?.isSome

/-- A configuration is an object, or not set, or a list of entries. -/
def Json.Configures (config : Json) : Prop :=
  (∃ entries, config = .object entries) ∨ ¬ config.isSet ∨
    ∃ items, config = .list items ∧ ∀ item ∈ items, item.IsEntry

/-- The value that an item gives a name. -/
def Json.given? (item : Json) (name : String) : Option Json :=
  match item.elements? with
  | some [key, value] => if key.key? = some (.text name) then some value else none
  | _ => none

/-- The value of a configuration under a name: of those that a list gives it, the last. -/
def Json.setting? (config : Json) (name : String) : Option Json :=
  match config with
  | .list items => latest? (·.given? name) items
  | _ => config.get? name

/-! ### Items -/

theorem entryOf_eq_ok_iff : entryOf position item = .ok entry ↔
    item.elements? = some [entry.1, entry.2] ∧ entry.1.key?.isSome := by
  unfold entryOf
  cases item.elements? with
  | none => simp
  | some elements =>
    match elements with
    | [] | [_] | _ :: _ :: _ :: _ => simp
    | [key, value] =>
      show (if key.key?.isSome then Except.ok (key, value)
        else Except.error SettingsError.unsuitableKey) = .ok entry ↔ _
      by_cases hkey : key.key?.isSome
      · rw [if_pos hkey]
        constructor
        · rintro ⟨⟩
          exact ⟨rfl, hkey⟩
        · rintro ⟨⟨⟩, -⟩
          rfl
      · rw [if_neg hkey]
        constructor
        · rintro ⟨⟩
        · rintro ⟨⟨⟩, h⟩
          exact absurd h hkey

theorem isEntry_iff (position : ℕ) : item.IsEntry ↔ ∃ entry, entryOf position item = .ok entry := by
  simp only [entryOf_eq_ok_iff, Prod.exists, Json.IsEntry]

theorem given?_of_elements {key value : Json} (h : item.elements? = some [key, value])
    (name : String) :
    item.given? name = if key.key? = some (.text name) then some value else none := by
  simp only [Json.given?, h]

/-! ### Lists -/

theorem exists_putItems_iff : (∃ entries', putItems entries position items = .ok entries') ↔
    ∀ item ∈ items, item.IsEntry := by
  induction items generalizing entries position with
  | nil => simp [putItems]
  | cons item items ih =>
    rw [List.forall_mem_cons, isEntry_iff position, putItems]
    cases entryOf position item with
    | error e => simp
    | ok entry => simpa using ih

theorem get?_putItems (h : putItems entries position items = .ok entries') (name : String) :
    entries'.get? name = (latest? (·.given? name) items).or (entries.get? name) := by
  induction items generalizing entries position with
  | nil =>
    cases h
    rfl
  | cons item items ih =>
    rw [putItems] at h
    cases hentry : entryOf position item with
    | error e => simp [hentry] at h
    | ok entry =>
      rw [hentry] at h
      obtain ⟨helements, -⟩ := entryOf_eq_ok_iff.1 hentry
      rw [ih h, latest?_cons, Option.or_assoc, Entries.get?_put, given?_of_elements helements]
      congr 1
      split_ifs <;> rfl

theorem putItems_append {front : List Json}
    (h : putItems entries position front = .ok entries') (rest : List Json) :
    putItems entries position (front ++ rest) = putItems entries' (position + front.length) rest := by
  induction front generalizing entries position with
  | nil =>
    cases h
    rfl
  | cons item front ih =>
    rw [putItems] at h
    rw [List.cons_append, putItems, List.length_cons, Nat.add_comm front.length, ← Nat.add_assoc]
    cases hentry : entryOf position item with
    | error e => simp [hentry] at h
    | ok entry =>
      rw [hentry] at h
      exact ih h

/-- The items of a list are put in one by one, up to the first that is no entry. -/
theorem putItems_eq_error_iff {e : SettingsError} : putItems entries position items = .error e ↔
    ∃ front item rest, items = front ++ item :: rest ∧ (∀ i ∈ front, i.IsEntry) ∧
      entryOf (position + front.length) item = .error e := by
  constructor
  · intro h
    induction items generalizing entries position with
    | nil => cases h
    | cons item items ih =>
      rw [putItems] at h
      cases hentry : entryOf position item with
      | error e' =>
        rw [hentry] at h
        cases h
        exact ⟨[], item, items, rfl, by simp, hentry⟩
      | ok entry =>
        rw [hentry] at h
        obtain ⟨front, faulty, rest, rfl, hfront, he⟩ := ih h
        refine ⟨item :: front, faulty, rest, rfl, ?_, ?_⟩
        · exact List.forall_mem_cons.2 ⟨(isEntry_iff position).2 ⟨entry, hentry⟩, hfront⟩
        · rwa [List.length_cons, Nat.add_comm front.length, ← Nat.add_assoc]
  · rintro ⟨front, item, rest, rfl, hfront, he⟩
    obtain ⟨entries', hput⟩ := exists_putItems_iff.2 hfront
    rw [putItems_append hput, putItems, he]

/-! ### Settings -/

theorem ofJson_of_not_isSet (h : ¬ config.isSet) : ofJson config = .ok .empty := by
  cases config with
  | object entries =>
    obtain rfl : entries = [] := by simpa [Json.isSet] using h
    rfl
  | null => rfl
  | _ => exact if_neg h

theorem ofJson_list (items : List Json) : ofJson (.list items) = (putItems [] 0 items).map .mk := by
  cases items <;> rfl

/-- The first character of a text is no entry. -/
theorem ofJson_text {value : String} (h : value ≠ "") :
    ofJson (.text value) = .error (.itemOfLength 0 1) := by
  have hset : (Json.text value).isSet = true := bne_iff_ne.2 h
  obtain ⟨c, rest, hc⟩ : ∃ c rest, value.toList = c :: rest :=
    List.exists_cons_of_ne_nil fun hnil => h (String.toList_eq_nil_iff.1 hnil)
  have hentry : entryOf 0 (.text (String.singleton c)) = .error (.itemOfLength 0 1) := by
    simp [entryOf, Json.elements?]
  refine (if_pos hset).trans ?_
  rw [hc, List.map_cons]
  simp only [putItems, hentry]
  rfl

/-- Where settings come from. -/
theorem ofJson_eq_ok_iff : ofJson config = .ok settings ↔
    (∃ entries, config = .object entries ∧ settings = ⟨.ofObject entries⟩) ∨
    (∃ items, config = .list items ∧ putItems [] 0 items = .ok settings.entries) ∨
    ¬ config.isSet ∧ settings = .empty := by
  constructor
  · intro h
    by_cases hset : config.isSet
    · cases config with
      | object entries =>
        cases h
        exact .inl ⟨entries, rfl, rfl⟩
      | list items =>
        rw [ofJson_list] at h
        cases hput : putItems [] 0 items with
        | error e => simp [hput, Except.map] at h
        | ok entries =>
          rw [hput] at h
          cases h
          exact .inr (.inl ⟨items, rfl, hput⟩)
      | text value => simp [ofJson_text (bne_iff_ne.1 hset)] at h
      | null | bool | int | float => simp [ofJson, hset, Json.elements?] at h
    · rw [ofJson_of_not_isSet hset] at h
      cases h
      exact .inr (.inr ⟨hset, rfl⟩)
  · rintro (⟨entries, rfl, rfl⟩ | ⟨items, rfl, h⟩ | ⟨h, rfl⟩)
    · rfl
    · rw [ofJson_list, h]
      rfl
    · exact ofJson_of_not_isSet h

/-- A configuration is accepted exactly if it is of a form that settings come in. -/
theorem exists_settings_iff : (∃ settings, ofJson config = .ok settings) ↔ config.Configures := by
  constructor
  · rintro ⟨settings, h⟩
    rcases ofJson_eq_ok_iff.1 h with ⟨entries, rfl, -⟩ | ⟨items, rfl, hput⟩ | ⟨hset, -⟩
    · exact .inl ⟨entries, rfl⟩
    · exact .inr (.inr ⟨items, rfl, exists_putItems_iff.1 ⟨_, hput⟩⟩)
    · exact .inr (.inl hset)
  · rintro (⟨entries, rfl⟩ | hset | ⟨items, rfl, hitems⟩)
    · exact ⟨_, rfl⟩
    · exact ⟨_, ofJson_of_not_isSet hset⟩
    · obtain ⟨entries, hput⟩ := exists_putItems_iff.2 hitems
      exact ⟨⟨entries⟩, ofJson_eq_ok_iff.2 (.inr (.inl ⟨items, rfl, hput⟩))⟩

/-- A list is refused for the first of its items that is no entry, a text for its first character, and
a number or true as it has no items. -/
theorem ofJson_eq_error_iff {e : SettingsError} : ofJson config = .error e ↔
    (∃ front item rest, config = .list (front ++ item :: rest) ∧ (∀ i ∈ front, i.IsEntry) ∧
      entryOf front.length item = .error e) ∨
    (∃ value, config = .text value ∧ value ≠ "" ∧ e = .itemOfLength 0 1) ∨
    config.isSet ∧ config.elements? = none ∧ e = .withoutItems := by
  constructor
  · intro h
    have hset : config.isSet := by
      by_contra hset
      simp [ofJson_of_not_isSet hset] at h
    cases config with
    | object entries => cases h
    | list items =>
      rw [ofJson_list] at h
      cases hput : putItems [] 0 items with
      | ok entries => simp [hput, Except.map] at h
      | error e' =>
        obtain rfl : e' = e := by simpa [hput, Except.map] using h
        obtain ⟨front, item, rest, rfl, hfront, he⟩ := putItems_eq_error_iff.1 hput
        exact .inl ⟨front, item, rest, rfl, hfront, by simpa using he⟩
    | text value =>
      have hvalue : value ≠ "" := bne_iff_ne.1 hset
      rw [ofJson_text hvalue] at h
      cases h
      exact .inr (.inl ⟨value, rfl, hvalue, rfl⟩)
    | null | bool | int | float =>
      simp only [ofJson, hset, Json.elements?] at h
      cases h
      exact .inr (.inr ⟨hset, rfl, rfl⟩)
  · rintro (⟨front, item, rest, rfl, hfront, he⟩ | ⟨value, rfl, hvalue, rfl⟩ | ⟨hset, hnone, rfl⟩)
    · have hput : putItems [] 0 (front ++ item :: rest) = .error e :=
        putItems_eq_error_iff.2 ⟨front, item, rest, rfl, hfront, by simpa using he⟩
      rw [ofJson_list, hput]
      rfl
    · exact ofJson_text hvalue
    · cases config with
      | object | list | text => cases hnone
      | null | bool | int | float => simp [ofJson, hset, hnone]

theorem setting?_of_not_isSet (h : ¬ config.isSet) (name : String) : config.setting? name = none := by
  cases config with
  | object entries =>
    obtain rfl : entries = [] := by simpa [Json.isSet] using h
    rfl
  | list items =>
    obtain rfl : items = [] := by simpa [Json.isSet] using h
    rfl
  | _ => rfl

/-- Settings hold what their configuration says. -/
theorem get?_ofJson (h : ofJson config = .ok settings) (name : String) :
    settings.entries.get? name = config.setting? name := by
  rcases ofJson_eq_ok_iff.1 h with ⟨entries, rfl, rfl⟩ | ⟨items, rfl, hput⟩ | ⟨hset, rfl⟩
  · exact Entries.get?_ofObject entries name
  · rw [get?_putItems hput, Entries.get?_nil, Option.or_none]
    rfl
  · rw [setting?_of_not_isSet hset]
    rfl

end RubyInlay
