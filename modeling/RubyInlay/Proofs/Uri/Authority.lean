import Mathlib.Data.List.TakeWhile
import RubyInlay.Uri

/-! Which URIs can be taken apart. Only the authority decides. Main statement: an authority has no
fault exactly if square brackets stand in it around an address of version 6 or later, or not at all,
and no character is a mark in disguise. -/

namespace RubyInlay

/-! ### Texts cut at marks -/

namespace Text

variable {mark c : Char} {text before after : List Char}

theorem bne_of_not_mem (h : mark ∉ text) : ∀ c ∈ text, (c != mark) = true :=
  fun _ hc => bne_iff_ne.2 fun e => h (e ▸ hc)

theorem cutAt_of_not_mem (h : mark ∉ text) : cutAt mark text = (text, []) := by
  have hne := bne_of_not_mem h
  rw [cutAt, List.takeWhile_eq_self_iff.2 hne, List.dropWhile_eq_nil_iff.2 hne, List.drop_nil]

theorem cutAt_append (h : mark ∉ before) :
    cutAt mark (before ++ mark :: after) = (before, after) := by
  have hne := bne_of_not_mem h
  rw [cutAt, List.takeWhile_append_of_pos hne, List.dropWhile_append_of_pos hne]
  simp

theorem fields_of_not_mem (h : mark ∉ text) : fields mark text = [text] := by
  induction text with
  | nil => rfl
  | cons c text ih =>
    obtain ⟨hc, ht⟩ := not_or.1 (mt List.mem_cons.2 h)
    simp [fields, Ne.symm hc, ih ht]

theorem exists_fields_eq_cons (mark : Char) (text : List Char) :
    ∃ f fs, fields mark text = f :: fs := by
  cases text with
  | nil => exact ⟨[], [], rfl⟩
  | cons c text =>
    unfold fields
    split_ifs
    · exact ⟨_, _, rfl⟩
    · split <;> exact ⟨_, _, rfl⟩

theorem exists_fields_cons (h : c ≠ mark) (text : List Char) :
    ∃ f fs, fields mark text = f :: fs ∧ fields mark (c :: text) = (c :: f) :: fs := by
  obtain ⟨f, fs, hf⟩ := exists_fields_eq_cons mark text
  exact ⟨f, fs, hf, by rw [fields, if_neg h, hf]⟩

/-- All of a text but the marks is in its parts. -/
theorem exists_mem_fields (hc : c ∈ text) (h : c ≠ mark) : ∃ f ∈ fields mark text, c ∈ f := by
  induction text with
  | nil => cases hc
  | cons d text ih =>
    by_cases hd : d = mark
    · have hc : c ∈ text := (List.mem_cons.1 hc).resolve_left fun e => h (e.trans hd)
      obtain ⟨g, hg, hcg⟩ := ih hc
      exact ⟨g, by simp [hd, hg], hcg⟩
    · obtain ⟨f, fs, hf, hdf⟩ := exists_fields_cons hd text
      rw [hdf]
      rcases List.mem_cons.1 hc with rfl | hc
      · exact ⟨c :: f, by simp, by simp⟩
      · obtain ⟨g, hg, hcg⟩ := ih hc
        rw [hf] at hg
        rcases List.mem_cons.1 hg with rfl | hg
        · exact ⟨d :: g, by simp, by simp [hcg]⟩
        · exact ⟨g, by simp [hg], hcg⟩

end Text

namespace Uri

open Text

/-! ### Addresses -/

/-- An address that may stand in brackets: of a later version, or of version 6. -/
def IsAddress (host : List Char) : Prop :=
  Address.isFuture host ∨ Address.isVersion6 host

namespace Address

variable {host : List Char}

theorem mem_of_isVersion4 (h : isVersion4 host) {c : Char} (hc : c ∈ host) :
    c = '.' ∨ c.isDigit := by
  rw [or_iff_not_imp_left]
  intro hne
  obtain ⟨f, hf, hcf⟩ := exists_mem_fields hc hne
  have hall : (fields '.' host).all isOctet := (Bool.and_eq_true_iff.1 h).2
  have ho := List.all_eq_true.1 hall f hf
  simp only [isOctet, Bool.and_eq_true, List.all_eq_true] at ho
  exact ho.1.1.1.2 c hcf

theorem isGroup_of_areGroups {g : List Char} {gs : List (List Char)} (h : areGroups (g :: gs))
    (hg : g ≠ []) : isGroup g := by
  unfold areGroups at h
  split at h
  · exact List.all_eq_true.1 (Bool.and_eq_true_iff.1 h).2 g (by simp)
  · rename_i i hi
    obtain ⟨k, -, rfl⟩ := Option.map_eq_some_iff.1 hi
    have hside : side ((g :: gs).take (k + 1)) = g :: gs.take k := by
      simp [side, hg]
    refine List.all_eq_true.1 (Bool.and_eq_true_iff.1 h).2 g (List.mem_append_left _ ?_)
    rw [hside]
    exact List.mem_cons_self

theorem not_isVersion4_of_isVersion6 (h : isVersion6 host) : ¬ isVersion4 host := by
  intro h4
  have hcolon : ':' ∉ host := fun hm => absurd (mem_of_isVersion4 h4 hm) (by decide)
  have hpercent : '%' ∉ host := fun hm => absurd (mem_of_isVersion4 h4 hm) (by decide)
  have hgroups := (Bool.and_eq_true_iff.1 h).2
  rw [cutAt_of_not_mem hpercent, fields_of_not_mem hcolon] at hgroups
  simp only [spellOut, List.getLast?_singleton, h4, if_true, List.dropLast_singleton] at hgroups
  split_ifs at hgroups
  · revert hgroups; decide
  · revert hgroups; simp [areGroups, gap?]

/-- Groups are spelled out at the end. -/
theorem spellOut_cons {g : List Char} {gs groups : List (List Char)}
    (h : spellOut (g :: gs) = some groups) (hg : ¬ isVersion4 g) : ∃ gs', groups = g :: gs' := by
  cases gs with
  | nil =>
    simp only [spellOut, List.getLast?_singleton] at h
    split_ifs at h
    exact ⟨[], (Option.some.inj h).symm⟩
  | cons g' gs =>
    unfold spellOut at h
    split at h
    · split_ifs at h
      · exact ⟨_, (Option.some.inj h).symm⟩
      · exact ⟨_, (Option.some.inj h).symm⟩
    · cases h

theorem head?_ne_of_isVersion6 (h : isVersion6 host) : host.head? ≠ some 'v' := by
  intro hv
  obtain ⟨rest, rfl⟩ := List.head?_eq_some_iff.1 hv
  have hgroups := (Bool.and_eq_true_iff.1 h).2
  have hcut : (cutAt '%' ('v' :: rest)).1 = 'v' :: (cutAt '%' rest).1 := rfl
  obtain ⟨f, fs, -, hf⟩ := exists_fields_cons (show 'v' ≠ ':' by decide) (cutAt '%' rest).1
  rw [hcut, hf] at hgroups
  cases hs : spellOut (('v' :: f) :: fs) with
  | none => simp [hs] at hgroups
  | some groups =>
    have h4 : ¬ isVersion4 ('v' :: f) := fun h =>
      absurd (mem_of_isVersion4 h List.mem_cons_self) (by decide)
    obtain ⟨gs, rfl⟩ := spellOut_cons hs h4
    rw [hs] at hgroups
    have hgroup : isGroup ('v' :: f) := isGroup_of_areGroups hgroups (List.cons_ne_nil _ _)
    have hdigit := List.all_eq_true.1 (Bool.and_eq_true_iff.1 hgroup).2 'v' List.mem_cons_self
    exact absurd hdigit (by decide)

theorem head?_of_isFuture (h : isFuture host) : host.head? = some 'v' := by
  unfold isFuture at h
  split at h
  · rfl
  · cases h

end Address

/-! ### Authorities -/

namespace Authority

theorem hostError?_eq_none_iff {host : List Char} :
    hostError? host = none ↔ IsAddress host := by
  unfold hostError? IsAddress
  by_cases hv : host.head? = some 'v'
  · have h6 : ¬ Address.isVersion6 host := fun h => Address.head?_ne_of_isVersion6 h hv
    simp [hv, h6]
  · have hf : ¬ Address.isFuture host := mt Address.head?_of_isFuture hv
    by_cases h4 : Address.isVersion4 host
    · have h6 : ¬ Address.isVersion6 host := fun h => Address.not_isVersion4_of_isVersion6 h h4
      simp [hv, hf, h4, h6]
    · simp [hv, hf, h4]

/-- A host that is an address: in brackets with nothing but a port behind them, or, if the brackets
stand before the host, up to the port. -/
inductive HoldsAddress : List Char → Prop
  | closed {address port : List Char} (hc : ']' ∉ address) (ha : IsAddress address)
      (hp : port = [] ∨ port.head? = some ':') : HoldsAddress ('[' :: (address ++ ']' :: port))
  | unclosed {address : List Char} (hc : ']' ∉ address) (ha : IsAddress address) :
      HoldsAddress ('[' :: address)
  | bare {host : List Char} (ho : '[' ∉ host) (ha : IsAddress (cutAt ':' host).1) :
      HoldsAddress host

theorem holdsAddress_iff_of_not_mem {host : List Char} (h : '[' ∉ host) :
    HoldsAddress host ↔ IsAddress (cutAt ':' host).1 := by
  constructor
  · rintro (_ | _ | ⟨-, ha⟩)
    · exact absurd List.mem_cons_self h
    · exact absurd List.mem_cons_self h
    · exact ha
  · exact .bare h

theorem holdsAddress_iff_of_mem {host : List Char} (h : '[' ∈ host) :
    HoldsAddress host ↔
      (cutAt '[' host).1 = [] ∧ IsAddress (cutAt ']' (cutAt '[' host).2).1 ∧
        ((cutAt ']' (cutAt '[' host).2).2 = [] ∨
          (cutAt ']' (cutAt '[' host).2).2.head? = some ':') := by
  have hfirst (inside : List Char) : cutAt '[' ('[' :: inside) = ([], inside) :=
    cutAt_append (List.not_mem_nil : '[' ∉ [])
  constructor
  · rintro (⟨hc, ha, hp⟩ | ⟨hc, ha⟩ | ⟨ho, -⟩)
    · rw [hfirst, cutAt_append hc]
      exact ⟨rfl, ha, hp⟩
    · rw [hfirst, cutAt_of_not_mem hc]
      exact ⟨rfl, ha, .inl rfl⟩
    · exact absurd h ho
  · obtain ⟨before, inside, rfl, hb⟩ := List.eq_append_cons_of_mem h
    rw [cutAt_append hb]
    rintro ⟨rfl, ha, hp⟩
    by_cases hi : ']' ∈ inside
    · obtain ⟨address, port, rfl, hc⟩ := List.eq_append_cons_of_mem hi
      rw [cutAt_append hc] at ha hp
      exact .closed hc ha hp
    · rw [cutAt_of_not_mem hi] at ha
      exact .unclosed hi ha

theorem bracketError?_eq_none_iff {authority : List Char} :
    bracketError? authority = none ↔
      ('[' ∈ authority ↔ ']' ∈ authority) ∧
        ('[' ∈ authority → HoldsAddress (afterLast '@' authority)) := by
  by_cases ho : '[' ∈ authority
  · by_cases hc : ']' ∈ authority
    · by_cases hh : '[' ∈ afterLast '@' authority
      · have hcut : bracketError? authority =
            if (cutAt '[' (afterLast '@' authority)).1 ≠ [] ∨
                (cutAt ']' (cutAt '[' (afterLast '@' authority)).2).2 ≠ [] ∧
                  (cutAt ']' (cutAt '[' (afterLast '@' authority)).2).2.head? ≠ some ':' then
              some .textBesideBrackets
            else hostError? (cutAt ']' (cutAt '[' (afterLast '@' authority)).2).1 := by
          simp [bracketError?, ho, hc, hh]
        rw [hcut, holdsAddress_iff_of_mem hh, ← hostError?_eq_none_iff]
        grind
      · simp [bracketError?, ho, hc, hh, holdsAddress_iff_of_not_mem hh, hostError?_eq_none_iff]
    · simp [bracketError?, ho, hc]
  · simp [bracketError?, ho]

/-- An authority with square brackets around an address only, and without marks in disguise. -/
structure Sound (authority : List Char) : Prop where
  paired : '[' ∈ authority ↔ ']' ∈ authority
  address : '[' ∈ authority → HoldsAddress (afterLast '@' authority)
  undisguised : ∀ c ∈ authority, ¬ disguisedMarks.contains c

theorem error?_eq_none_iff {authority : List Char} :
    error? authority = none ↔ Sound authority := by
  have hmark : markError? authority = none ↔ ∀ c ∈ authority, ¬ disguisedMarks.contains c := by
    simp [markError?]
  rw [error?, Option.or_eq_none_iff, bracketError?_eq_none_iff, hmark]
  constructor
  · exact fun ⟨⟨hp, ha⟩, hu⟩ => ⟨hp, ha, hu⟩
  · exact fun ⟨hp, ha, hu⟩ => ⟨⟨hp, ha⟩, hu⟩

end Authority

/-! ### URIs -/

/-- What stands behind the two slashes of a URI. -/
def authorityOf (text : List Char) : List Char :=
  (cutAuthority (cutScheme (clean text)).2).1

theorem ofText_eq_error_iff {text : List Char} {e : UriError} :
    ofText text = .error e ↔ Authority.error? (authorityOf text) = some e := by
  unfold ofText authorityOf
  dsimp only
  split
  · rename_i h; simp [h]
  · rename_i h; simp [h]

end Uri

theorem namesRubyFile_eq_error_iff {uri : String} {e : UriError} :
    namesRubyFile uri = .error e ↔
      Uri.Authority.error? (Uri.authorityOf uri.toList) = some e := by
  rw [← Uri.ofText_eq_error_iff, namesRubyFile]
  cases Uri.ofText uri.toList <;> simp [Except.map]

end RubyInlay
