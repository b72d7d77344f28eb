import Mathlib.Data.List.Basic
import RubyInlay.Proofs.Settings
import RubyInlay.Proofs.SinglePass

/-! Features and the settings that switch them. A node of an outline offers a hint of one feature,
whatever the settings are, and the settings pick the offers of some features. Main statement: three
switches of a configuration decide which, the hints of the two features are dealt out of one list,
and a switch that is set adds hints and takes none away. -/

namespace RubyInlay

variable {settings : Settings} {config : Json} {d : Document} {window : Option Window}

/-! ### Offers -/

/-- The hint that a node offers in a window, with the feature that the node belongs to. -/
def Node.offer? (window : Option Window) : Node → Option (Feature × Hint)
  | .rescueClause exceptions span _ =>
    if exceptions = [] ∧ span.ShownIn window then some (.bareRescue, rescueHint span) else none
  | .omittedValue span value =>
    if span.ShownIn window then some (.omittedValue, valueHint span value) else none
  | _ => none

/-- What the nodes of a document offer, in document order. -/
def offers (d : Document) (window : Option Window) : List (Feature × Hint) :=
  d.outline.1.preorder.filterMap (Node.offer? window)

/-- The hints offered for one feature. -/
def offersOf (f : Feature) (d : Document) (window : Option Window) : List Hint :=
  ((offers d window).filter (·.1 = f)).map (·.2)

theorem hint?_eq_offer? (c : Collector) (n : Node) :
    c.hint? n = (n.offer? c.window).bind fun o => if c.settings.shows o.1 then some o.2 else none := by
  cases n with
  | plain | expression => rfl
  | rescueClause exceptions span ns =>
    by_cases hs : c.settings.shows .bareRescue <;>
      by_cases hw : exceptions = [] ∧ span.ShownIn c.window <;>
      simp [Collector.hint?, Node.offer?, hs, hw]
  | omittedValue span value =>
    by_cases hs : c.settings.shows .omittedValue <;> by_cases hw : span.ShownIn c.window <;>
      simp [Collector.hint?, Node.offer?, hs, hw]

/-- What the nodes of a document offer for the features that the settings show. -/
def shownOffers (settings : Settings) (d : Document) (window : Option Window) : List Hint :=
  ((offers d window).filter fun o => settings.shows o.1).map (·.2)

theorem hints_eq_shownOffers (d : Document) (c : Collector) :
    (annotate d c).hints = shownOffers c.settings d c.window := by
  have hhints := filterMap_eq_map_filter (hint?_eq_offer? c) d.outline.1.preorder
  simp only [Bool.decide_eq_true] at hhints
  rw [annotate_eq]
  exact hhints

theorem shownOffers_of_all (h : ∀ f, settings.shows f) :
    shownOffers settings d window = (offers d window).map (·.2) := by
  simp only [shownOffers, h, List.filter_true]

theorem shownOffers_of_none (h : ∀ f, ¬ settings.shows f) : shownOffers settings d window = [] := by
  simp [shownOffers, h]

theorem shownOffers_of_only {f : Feature} (h : ∀ g, settings.shows g ↔ g = f) :
    shownOffers settings d window = offersOf f d window := by
  have hshows (g : Feature) : settings.shows g = decide (g = f) := by
    rw [Bool.eq_iff_iff, h g, decide_eq_true_iff]
  simp only [shownOffers, hshows, offersOf]

theorem shownOffers_sublist {settings' : Settings}
    (h : ∀ f, settings.shows f → settings'.shows f) :
    (shownOffers settings d window).Sublist (shownOffers settings' d window) := by
  refine List.Sublist.map _ (List.monotone_filter_right _ fun o ho => ?_)
  exact h o.1 ho

/-! ### Switches -/

/-- The value under a key of a configuration is set. -/
def Json.turnsOn (config : Json) (key : String) : Bool :=
  (config.setting? key).any Json.isSet

/-- The keys that switch features on. -/
def switchKeys : List String := ["enableAll", "implicitRescue", "implicitHashValue"]

/-- The hints of a document under a configuration. -/
def hintsUnder (config : Json) (d : Document) (window : Option Window) :
    Except SettingsError (List Hint) :=
  (Settings.ofJson config).map fun settings => (annotate d ⟨window, settings⟩).hints

theorem isSet_eq_turnsOn (h : Settings.ofJson config = .ok settings) (key : String) :
    settings.isSet key = config.turnsOn key := by
  rw [Settings.isSet, get?_ofJson h, Json.turnsOn]

/-- A feature is shown if its switch is on, or the one for all features. -/
theorem shows_iff (h : Settings.ofJson config = .ok settings) (f : Feature) :
    settings.shows f ↔ config.turnsOn "enableAll" ∨ config.turnsOn f.key := by
  simp only [Settings.shows, Settings.isOn, isSet_eq_turnsOn h, Bool.or_eq_true,
    Settings.enableAllKey]

/-! ### Two lists dealt out of one -/

/-- The third list is made of the first two, each in its order. -/
inductive Interleave {α : Type} : List α → List α → List α → Prop
  | nil : Interleave [] [] []
  | left {x : α} {xs ys zs : List α} (h : Interleave xs ys zs) : Interleave (x :: xs) ys (x :: zs)
  | right {y : α} {xs ys zs : List α} (h : Interleave xs ys zs) : Interleave xs (y :: ys) (y :: zs)

/-- The offers of the two features make up all offers. -/
theorem interleave_offersOf (d : Document) (window : Option Window) :
    Interleave (offersOf .bareRescue d window) (offersOf .omittedValue d window)
      ((offers d window).map (·.2)) := by
  unfold offersOf
  induction offers d window with
  | nil => exact .nil
  | cons o os ih =>
    obtain ⟨f, hint⟩ := o
    cases f with
    | bareRescue => exact .left ih
    | omittedValue => exact .right ih

/-! ### Hints under a configuration -/

theorem hintsUnder_eq_ok_iff {hints : List Hint} : hintsUnder config d window = .ok hints ↔
    ∃ settings, Settings.ofJson config = .ok settings ∧ hints = shownOffers settings d window := by
  unfold hintsUnder
  cases Settings.ofJson config with
  | error e => simp [Except.map]
  | ok settings => simp [Except.map, hints_eq_shownOffers, eq_comm]

/-- A configuration in which more switches are set has more hints. -/
theorem sublist_of_turnsOn {config' : Json} {hints hints' : List Hint}
    (h : hintsUnder config d window = .ok hints) (h' : hintsUnder config' d window = .ok hints')
    (hon : ∀ key ∈ switchKeys, config.turnsOn key → config'.turnsOn key) :
    hints.Sublist hints' := by
  obtain ⟨settings, hs, rfl⟩ := hintsUnder_eq_ok_iff.1 h
  obtain ⟨settings', hs', rfl⟩ := hintsUnder_eq_ok_iff.1 h'
  refine shownOffers_sublist fun f hf => ?_
  rw [shows_iff hs] at hf
  rw [shows_iff hs']
  exact hf.imp (hon _ (by decide)) (hon _ (by cases f <;> decide))

/-- The switch for all features, or both of the others, show what all nodes offer; one of the others
alone shows what the nodes of its feature offer, and none shows nothing. Nothing else in a
configuration matters, and what a switch adds comes between the hints that are there without it. -/
theorem features_switched (d : Document) (window : Option Window) (h : config.Configures) :
    let all := (offers d window).map (·.2)
    let clauses := offersOf .bareRescue d window
    let values := offersOf .omittedValue d window
    let on key := config.turnsOn key
    Interleave clauses values all ∧
    ∃ hints, hintsUnder config d window = .ok hints ∧
      (on "enableAll" ∨ on "implicitRescue" ∧ on "implicitHashValue" → hints = all) ∧
      (¬ on "enableAll" → on "implicitRescue" → ¬ on "implicitHashValue" → hints = clauses) ∧
      (¬ on "enableAll" → ¬ on "implicitRescue" → on "implicitHashValue" → hints = values) ∧
      (¬ on "enableAll" → ¬ on "implicitRescue" → ¬ on "implicitHashValue" → hints = []) ∧
      ∀ config' hints', hintsUnder config' d window = .ok hints' →
        ((∀ key ∈ switchKeys, config'.turnsOn key = on key) → hints' = hints) ∧
        ((∀ key ∈ switchKeys, on key → config'.turnsOn key) → hints.Sublist hints') := by
  intro all clauses values on
  obtain ⟨settings, hs⟩ := exists_settings_iff.2 h
  have hhints : hintsUnder config d window = .ok _ := hintsUnder_eq_ok_iff.2 ⟨settings, hs, rfl⟩
  have hclauses : settings.shows .bareRescue ↔ on "enableAll" ∨ on "implicitRescue" :=
    shows_iff hs .bareRescue
  have hvalues : settings.shows .omittedValue ↔ on "enableAll" ∨ on "implicitHashValue" :=
    shows_iff hs .omittedValue
  refine ⟨interleave_offersOf d window, _, hhints, fun hon => shownOffers_of_all fun f => ?_,
    fun hall hr hv => shownOffers_of_only fun f => ?_,
    fun hall hr hv => shownOffers_of_only fun f => ?_,
    fun hall hr hv => shownOffers_of_none fun f => ?_, fun config' hints' h' => ⟨fun hon => ?_,
    sublist_of_turnsOn hhints h'⟩⟩
  · cases f with
    | bareRescue => exact hclauses.2 (hon.imp_right And.left)
    | omittedValue => exact hvalues.2 (hon.imp_right And.right)
  · cases f <;> simp [hclauses, hvalues, hall, hr, hv]
  · cases f <;> simp [hclauses, hvalues, hall, hr, hv]
  · cases f <;> simp [hclauses, hvalues, hall, hr, hv]
  · have hless := sublist_of_turnsOn h' hhints fun key hkey hk => (hon key hkey).symm.trans hk
    have hmore := sublist_of_turnsOn hhints h' fun key hkey hk => (hon key hkey).trans hk
    exact hless.antisymm hmore

/-! The clause and the entry show hints with one label, each for its own feature. -/

def clauseWithNamesake : Document where
  source := "begin\nrescue\n{StandardError:}\nend"
  root :=
    .node ⟨"begin", true, none, 0, 33, ⟨0, 0⟩, ⟨3, 3⟩⟩
      [.node ⟨"rescue", true, none, 6, 29, ⟨1, 0⟩, ⟨2, 16⟩⟩
        [.node ⟨"hash", true, none, 13, 29, ⟨2, 0⟩, ⟨2, 16⟩⟩
          [.node ⟨"pair", true, none, 14, 28, ⟨2, 1⟩, ⟨2, 15⟩⟩
            [.node ⟨"hash_key_symbol", true, some .key, 14, 27, ⟨2, 1⟩, ⟨2, 14⟩⟩ []]]]]
  malformed := false

def onlyClauses : Json :=
  .object
    [("enabled", .bool false), ("enableAll", .int 0), ("implicitRescue", .list [.bool false]),
     ("implicitHashValue", .text "")]

theorem clause_shown_without_namesake :
    onlyClauses.Configures ∧ onlyClauses.turnsOn "implicitRescue" ∧
    (offers clauseWithNamesake none).map (·.2.label) = ["StandardError", "StandardError"] ∧
    ∃ hints, hintsUnder onlyClauses clauseWithNamesake none = .ok hints ∧
      hints = offersOf .bareRescue clauseWithNamesake none ∧
      hints.map (·.line) = [1] := by
  have hc : onlyClauses.Configures := .inl ⟨_, rfl⟩
  obtain ⟨-, hints, hhints, -, hclauses, -⟩ := features_switched clauseWithNamesake none hc
  have honly := hclauses (by decide) (by decide) (by decide)
  refine ⟨hc, by decide, by decide +kernel, hints, hhints, honly, ?_⟩
  rw [honly]
  decide +kernel

end RubyInlay
