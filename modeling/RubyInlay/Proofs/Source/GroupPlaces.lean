import Mathlib.Data.List.Forall2
import Mathlib.Data.List.Sort
import RubyInlay.Proofs.Source.NamedGroup

/-! The places of the named groups in a text. At each place the text reads as a group of one name at
most, and the search leaves no place out: the name of a group has no parenthesis in it, and a group
that is broken off costs the search one character. Main statement: the search finds the names at all
places where the text reads as a group, in the order of the places and one for each. -/

namespace RubyInlay.Source.NamedGroup

variable {text name : List Char} {i : Nat} {c : Char}

/-- From its `i`-th character on, the text reads `(?<`, a name, `>`. -/
def ReadsAt (text : List Char) (i : Nat) (name : List Char) : Prop :=
  IsName name ∧ '(' :: '?' :: '<' :: (name ++ ['>']) <+: text.drop i

/-- The places where a text reads as a group, all of them in increasing order, and the name at each. -/
structure Listed (text : List Char) (places : List Nat) (names : List (List Char)) : Prop where
  increasing : places.Pairwise (· < ·)
  complete : ∀ i, i ∈ places ↔ ∃ name, ReadsAt text i name
  reads : List.Forall₂ (ReadsAt text) places names

/-! ### One place -/

theorem readsAt_iff : ReadsAt text i name ↔ leading? (text.drop i) = some name := by
  rw [leading?_eq_some_iff]
  refine and_congr_right fun _ => exists_congr fun after => ?_
  rw [eq_comm, List.nil_append]
  simp

theorem readsAt_unique {name' : List Char} (h : ReadsAt text i name) (h' : ReadsAt text i name') :
    name = name' :=
  Option.some.inj ((readsAt_iff.1 h).symm.trans (readsAt_iff.1 h'))

theorem readsAt_cons_succ : ReadsAt (c :: text) (i + 1) name ↔ ReadsAt text i name := Iff.rfl

/-! ### All places -/

theorem listed_nil : Listed [] [] [] where
  increasing := .nil
  complete i := by simp [ReadsAt]
  reads := .nil

/-- A character in front of a text moves its places by one, and there may be a group at the start. -/
theorem Listed.cons {places : List Nat} {names : List (List Char)} (h : Listed text places names)
    (c : Char) : ∃ places', Listed (c :: text) places'
      ((leading? (c :: text)).toList ++ names) := by
  have hlater : (places.map (· + 1)).Pairwise (· < ·) :=
    List.pairwise_map.2 (h.increasing.imp Nat.succ_lt_succ)
  have hreads : List.Forall₂ (ReadsAt (c :: text)) (places.map (· + 1)) names :=
    List.forall₂_map_left_iff.2 h.reads
  have hmem (j : Nat) : j + 1 ∈ places.map (· + 1) ↔ ∃ name, ReadsAt (c :: text) (j + 1) name := by
    simp only [List.mem_map, Nat.add_right_cancel_iff, exists_eq_right, readsAt_cons_succ,
      h.complete j]
  cases hfirst : leading? (c :: text) with
  | none =>
    refine ⟨places.map (· + 1), hlater, ?_, hreads⟩
    rintro (_ | j)
    · simp [readsAt_iff, hfirst]
    · exact hmem j
  | some name =>
    have hzero : ReadsAt (c :: text) 0 name := readsAt_iff.2 hfirst
    refine ⟨0 :: places.map (· + 1), List.pairwise_cons.2 ⟨by simp, hlater⟩, ?_, .cons hzero hreads⟩
    rintro (_ | j)
    · exact iff_of_true List.mem_cons_self ⟨name, hzero⟩
    · simpa using hmem j

theorem exists_listed (text : List Char) : ∃ places, Listed text places (names text) := by
  rw [names_eq]
  induction text with
  | nil => exact ⟨[], listed_nil⟩
  | cons c text ih =>
    obtain ⟨places, h⟩ := ih
    obtain ⟨places', h'⟩ := h.cons c
    have hfound : (c :: text).tails.filterMap leading? =
        (leading? (c :: text)).toList ++ text.tails.filterMap leading? := by
      rw [List.tails_cons, List.filterMap_cons]
      cases leading? (c :: text) <;> rfl
    exact ⟨places', hfound ▸ h'⟩

/-- The search finds the names at all places where the text reads as a group, one for each place and
in their order, and nothing else; and at no place does the text read as groups of two names. -/
theorem names_at_all_places (text : List Char) :
    (∀ found, names text = found ↔ ∃ places, Listed text places found) ∧
    ∀ i name name', ReadsAt text i name → ReadsAt text i name' → name = name' := by
  refine ⟨fun found => ⟨?_, ?_⟩, fun _ _ _ => readsAt_unique⟩
  · rintro rfl
    exact exists_listed text
  · rintro ⟨places, h⟩
    obtain ⟨places', h'⟩ := exists_listed text
    have hplaces : places' = places := by
      refine h'.increasing.eq_of_mem_iff h.increasing fun i => ?_
      rw [h'.complete i, h.complete i]
    have hunique : Relator.RightUnique (ReadsAt text) := fun _ _ _ => readsAt_unique
    exact hunique.forall₂ h'.reads (hplaces ▸ h.reads)

/-! In `(?<a(?<b>` the first group is broken off, and the second is found behind it. -/

theorem group_behind_broken_group :
    let text := "(?<a(?<b>".toList
    ReadsAt text 4 "b".toList ∧ (∀ name, ReadsAt text 4 name → name = "b".toList) ∧
      ∃ places, Listed text places ["b".toList] := by
  intro text
  obtain ⟨hall, hunique⟩ := names_at_all_places text
  have hb : ReadsAt text 4 "b".toList := readsAt_iff.2 (by decide)
  exact ⟨hb, fun name h => hunique 4 name _ h hb, (hall ["b".toList]).1 (by decide +kernel)⟩

end RubyInlay.Source.NamedGroup
