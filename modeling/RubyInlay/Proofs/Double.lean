import Mathlib.Data.Nat.Dist
import Mathlib.Data.Nat.Log
import Mathlib.Tactic.Positivity
import Mathlib.Tactic.Ring
import RubyInlay.Double

/-! Numbers that are read and shown. Reading is monotone, and it reads a magnitude with all its places
as that magnitude; so if any digits of some length are read back as a magnitude, one of its two
neighbours of that length is. Main statements: no magnitude is nearer to a quotient than the one that
it is read as, and the digits that a number is shown by are read back as it, while no shorter ones are
and no nearer ones of their length. -/

namespace RubyInlay.Double

variable {num num' den rank dropped digits : ℕ}

theorem dist_le_of_le {a b c : ℕ} (hab : a ≤ b) (hbc : b ≤ c) : Nat.dist b c ≤ Nat.dist a c := by
  rw [Nat.dist_eq_sub_of_le hbc, Nat.dist_eq_sub_of_le (hab.trans hbc)]
  exact Nat.sub_le_sub_left hab c

/-! ### Whole numbers -/

theorem nearestWhole_eq_or (num den : ℕ) :
    nearestWhole num den = num / den ∨ nearestWhole num den = num / den + 1 := by
  rw [nearestWhole]
  split_ifs
  · exact .inl rfl
  · exact .inr rfl

theorem nearestWhole_mul (n : ℕ) (hden : 0 < den) : nearestWhole (n * den) den = n := by
  rw [nearestWhole, Nat.mul_div_cancel n hden, Nat.mul_mod_left]
  exact if_pos (.inl hden)

theorem nearestWhole_mono (h : num ≤ num') : nearestWhole num den ≤ nearestWhole num' den := by
  have hdiv : num / den ≤ num' / den := Nat.div_le_div_right h
  rcases hdiv.lt_or_eq with hlt | heq
  · have hbelow := nearestWhole_eq_or num den
    have habove := nearestWhole_eq_or num' den
    omega
  · have hrest : num % den ≤ num' % den := by
      have hnum := Nat.div_add_mod num den
      have hnum' := Nat.div_add_mod num' den
      rw [heq] at hnum
      omega
    simp only [nearestWhole, ← heq]
    split_ifs <;> omega

theorem nearestWhole_le {n : ℕ} (hden : 0 < den) (h : num ≤ n * den) : nearestWhole num den ≤ n :=
  (nearestWhole_mono h).trans_eq (nearestWhole_mul n hden)

theorem le_nearestWhole {n : ℕ} (hden : 0 < den) (h : n * den ≤ num) : n ≤ nearestWhole num den :=
  (nearestWhole_mul n hden).symm.trans_le (nearestWhole_mono h)

/-- No whole number is nearer to a quotient. -/
theorem dist_nearestWhole_le (hden : 0 < den) (n : ℕ) :
    Nat.dist (nearestWhole num den * den) num ≤ Nat.dist (n * den) num := by
  have hrest : num % den < den := Nat.mod_lt num hden
  have hnum : num / den * den + num % den = num := Nat.div_add_mod' num den
  have hnext : (num / den + 1) * den = num / den * den + den := Nat.succ_mul _ _
  have hn : n * den ≤ num / den * den ∨ (num / den + 1) * den ≤ n * den :=
    (Nat.lt_or_ge (num / den) n).symm.imp (Nat.mul_le_mul_right den) (Nat.mul_le_mul_right den)
  rw [nearestWhole]
  generalize n * den = other at *
  generalize hbelow : num / den * den = below at *
  split_ifs with hnear
  · rw [hbelow, Nat.dist, Nat.dist]
    omega
  · rw [hnext, Nat.dist, Nat.dist]
    omega

/-! ### Powers -/

theorem infiniteRank_eq : infiniteRank = 2047 * 2 ^ 52 := rfl

theorem shift_eq (rank : ℕ) : shift rank = rank / 2 ^ 52 - 1 := by
  rw [shift, Nat.shiftRight_eq_div_pow]

theorem units_eq (rank : ℕ) : units rank = (rank - shift rank * 2 ^ 52) * 2 ^ shift rank := by
  rw [units, Nat.shiftLeft_eq, Nat.shiftLeft_eq]

theorem nearestRank_eq (num den : ℕ) :
    let s := shiftAround (num * unitsOfOne) den
    nearestRank num den =
      min infiniteRank (s * 2 ^ 52 + nearestWhole (num * unitsOfOne) (den * 2 ^ s)) := by
  rw [nearestRank, Nat.shiftLeft_eq, Nat.shiftLeft_eq]

theorem tenTo_zero : tenTo 0 = 1 := rfl

theorem tenTo_pos (power : ℕ) : 0 < tenTo power := Nat.pow_pos (by decide)

theorem unitsOfOne_pos : 0 < unitsOfOne := by
  rw [unitsOfOne, Nat.shiftLeft_eq]
  positivity

/-- Ten is twice five. -/
theorem exists_tenTo_places : ∃ fives > 0, tenTo places = unitsOfOne * fives := by
  have hten (n : ℕ) : tenTo n = 1 <<< n * 5 ^ n := by
    rw [tenTo, Nat.shiftLeft_eq, Nat.one_mul, ← Nat.mul_pow]
    rfl
  refine ⟨5 ^ places, by positivity, ?_⟩
  rw [unitsOfOne]
  exact hten places

/-! ### Reading -/

theorem shiftAround_mono (den : ℕ) (h : num ≤ num') : shiftAround num den ≤ shiftAround num' den := by
  rw [shiftAround, shiftAround, Nat.log2_eq_log_two, Nat.log2_eq_log_two]
  exact Nat.sub_le_sub_right (Nat.log_mono_right (Nat.div_le_div_right h)) 52

theorem le_of_shiftAround (hden : 0 < den) : num ≤ 2 ^ 53 * (den * 2 ^ shiftAround num den) := by
  have hdiv : num / den < 2 ^ (53 + shiftAround num den) :=
    Nat.lt_log2_self.trans_le (Nat.pow_le_pow_right Nat.two_pos (by rw [shiftAround]; omega))
  have hnum : num < 2 ^ (53 + shiftAround num den) * den := (Nat.div_lt_iff_lt_mul hden).1 hdiv
  rw [pow_add, Nat.mul_assoc, Nat.mul_comm _ den] at hnum
  exact hnum.le

theorem shiftAround_le (hshift : 0 < shiftAround num den) :
    2 ^ 52 * (den * 2 ^ shiftAround num den) ≤ num := by
  have hlog : Nat.log2 (num / den) = 52 + shiftAround num den := by
    rw [shiftAround] at *
    omega
  have hne : num / den ≠ 0 := by
    intro h
    rw [h, Nat.log2_zero] at hlog
    omega
  have hdiv : 2 ^ (52 + shiftAround num den) ≤ num / den := hlog ▸ Nat.log2_self_le hne
  calc 2 ^ 52 * (den * 2 ^ shiftAround num den)
      = 2 ^ (52 + shiftAround num den) * den := by ring
    _ ≤ num / den * den := Nat.mul_le_mul_right den hdiv
    _ ≤ num := Nat.div_mul_le_self num den

theorem nearestWhole_shiftAround_le (hden : 0 < den) (num : ℕ) :
    nearestWhole num (den * 2 ^ shiftAround num den) ≤ 2 ^ 53 :=
  nearestWhole_le (by positivity) (le_of_shiftAround hden)

theorem le_nearestWhole_shiftAround (hden : 0 < den) (hshift : 0 < shiftAround num den) :
    2 ^ 52 ≤ nearestWhole num (den * 2 ^ shiftAround num den) :=
  le_nearestWhole (by positivity) (shiftAround_le hshift)

/-- Larger quotients are read as larger magnitudes. -/
theorem nearestRank_mono (hden : 0 < den) (h : num ≤ num') :
    nearestRank num den ≤ nearestRank num' den := by
  have hscaled : num * unitsOfOne ≤ num' * unitsOfOne := Nat.mul_le_mul_right _ h
  rw [nearestRank_eq, nearestRank_eq]
  generalize num * unitsOfOne = n at *
  generalize num' * unitsOfOne = n' at *
  refine min_le_min_left _ ?_
  rcases (shiftAround_mono den hscaled).lt_or_eq with hlt | heq
  · have hbelow := nearestWhole_shiftAround_le hden n
    have habove := le_nearestWhole_shiftAround hden (Nat.zero_lt_of_lt hlt)
    omega
  · rw [heq]
    exact Nat.add_le_add_left (nearestWhole_mono hscaled) _

theorem shift_eq_log2_units (rank : ℕ) : shift rank = Nat.log2 (units rank) - 52 := by
  rw [units_eq]
  generalize hs : shift rank = s
  generalize hn : rank - s * 2 ^ 52 = n
  rw [shift_eq] at hs
  have hlt : n < 2 ^ 53 := by omega
  rcases Nat.eq_zero_or_pos s with rfl | hpos
  · rw [pow_zero, Nat.mul_one]
    rcases Nat.eq_zero_or_pos n with rfl | hn
    · rw [Nat.log2_zero]
    · have := (Nat.log2_lt hn.ne').2 hlt
      omega
  · have hle : 2 ^ 52 ≤ n := by omega
    have hlog : Nat.log2 (n * 2 ^ s) = 52 + s := by
      rw [Nat.log2_eq_iff (by positivity), pow_add, Nat.add_right_comm, pow_add]
      exact ⟨Nat.mul_le_mul_right _ hle, Nat.mul_lt_mul_of_pos_right hlt (by positivity)⟩
    omega

/-- A magnitude is read as itself, over whatever denominator it is written. -/
theorem nearestRank_units (h : rank ≤ infiniteRank) {n : ℕ} (hn : 0 < n) :
    nearestRank (units rank * n) (unitsOfOne * n) = rank := by
  have hden : 0 < unitsOfOne * n := Nat.mul_pos unitsOfOne_pos hn
  have hquotient : units rank * n * unitsOfOne = units rank * (unitsOfOne * n) := by ring
  rw [nearestRank_eq, hquotient]
  generalize unitsOfOne * n = den at *
  have hshift : shiftAround (units rank * den) den = shift rank := by
    rw [shiftAround, Nat.mul_div_cancel _ hden, ← shift_eq_log2_units]
  have hunits : units rank * den = (rank - shift rank * 2 ^ 52) * (den * 2 ^ shift rank) := by
    rw [units_eq]
    ring
  rw [hshift, hunits, nearestWhole_mul _ (by positivity)]
  rw [shift_eq] at *
  omega

/-- A magnitude by its rank, with a shift that may be too small by one. -/
theorem units_of_shifted {s n : ℕ} (hn : n ≤ 2 ^ 53) (hs : 0 < s → 2 ^ 52 ≤ n) :
    units (s * 2 ^ 52 + n) = n * 2 ^ s := by
  rcases hn.lt_or_eq with hlt | rfl
  · have hshift : shift (s * 2 ^ 52 + n) = s := by
      rw [shift_eq]
      omega
    rw [units_eq, hshift, Nat.add_sub_cancel_left]
  · have hshift : shift (s * 2 ^ 52 + 2 ^ 53) = s + 1 := by
      rw [shift_eq]
      omega
    have hrest : s * 2 ^ 52 + 2 ^ 53 - (s + 1) * 2 ^ 52 = 2 ^ 52 := by omega
    rw [units_eq, hshift, hrest]
    ring

theorem units_mul_le {s : ℕ} (h : rank ≤ (s + 1) * 2 ^ 52) (n : ℕ) :
    units rank * n ≤ 2 ^ 52 * (n * 2 ^ s) := by
  have hunits : units rank ≤ 2 ^ 52 * 2 ^ s := by
    have hshift : shift rank ≤ s := by
      rw [shift_eq]
      omega
    have hrest : rank - shift rank * 2 ^ 52 < 2 ^ 53 := by
      rw [shift_eq]
      omega
    rw [units_eq]
    rcases hshift.lt_or_eq with hlt | heq
    · calc (rank - shift rank * 2 ^ 52) * 2 ^ shift rank
          ≤ 2 ^ 53 * 2 ^ shift rank := Nat.mul_le_mul_right _ hrest.le
        _ = 2 ^ 52 * 2 ^ (shift rank + 1) := by ring
        _ ≤ 2 ^ 52 * 2 ^ s := Nat.mul_le_mul_left _ (Nat.pow_le_pow_right Nat.two_pos hlt)
    · rw [heq]
      exact Nat.mul_le_mul_right _ (by omega)
  calc units rank * n ≤ 2 ^ 52 * 2 ^ s * n := Nat.mul_le_mul_right n hunits
    _ = 2 ^ 52 * (n * 2 ^ s) := by ring

theorem units_mono {rank' : ℕ} (h : rank ≤ rank') (h' : rank' ≤ infiniteRank) :
    units rank ≤ units rank' := by
  by_contra hlt
  have hone : 0 < unitsOfOne * 1 := Nat.mul_pos unitsOfOne_pos Nat.one_pos
  have hread := nearestRank_mono hone (Nat.mul_le_mul_right 1 (Nat.le_of_not_le hlt))
  rw [nearestRank_units h' Nat.one_pos, nearestRank_units (h.trans h') Nat.one_pos] at hread
  obtain rfl : rank = rank' := le_antisymm h hread
  exact hlt le_rfl

/-- No magnitude is nearer to a quotient than the nearest multiple of the distance between neighbours
around there. -/
theorem dist_nearestWhole_shiftAround_le (hden : 0 < den) (num rank : ℕ) :
    Nat.dist (nearestWhole num (den * 2 ^ shiftAround num den) * (den * 2 ^ shiftAround num den)) num ≤
      Nat.dist (units rank * den) num := by
  have hscale : 0 < den * 2 ^ shiftAround num den := by positivity
  rcases Nat.lt_or_ge (shift rank) (shiftAround num den) with hcloser | hfarther
  · -- Where neighbours are closer, magnitudes are below the quotient and all around it.
    have hrank : units rank * den ≤ 2 ^ 52 * (den * 2 ^ shiftAround num den) :=
      units_mul_le (by rw [shift_eq] at hcloser; omega) den
    have hnum := shiftAround_le (Nat.zero_lt_of_lt hcloser)
    exact (dist_nearestWhole_le hscale _).trans (dist_le_of_le hrank hnum)
  · obtain ⟨k, hk⟩ := Nat.exists_eq_add_of_le hfarther
    have hrank : units rank * den =
        (rank - shift rank * 2 ^ 52) * 2 ^ k * (den * 2 ^ shiftAround num den) := by
      rw [units_eq, hk, pow_add]
      ring
    rw [hrank]
    exact dist_nearestWhole_le hscale _

/-- No magnitude is nearer to a quotient than the one that it is read as. -/
theorem dist_nearestRank_le (hden : 0 < den) (h : rank ≤ infiniteRank) :
    Nat.dist (units (nearestRank num den) * den) (num * unitsOfOne) ≤
      Nat.dist (units rank * den) (num * unitsOfOne) := by
  rw [nearestRank_eq]
  generalize num * unitsOfOne = n
  have hle := nearestWhole_shiftAround_le hden n
  rcases Nat.lt_or_ge infiniteRank (shiftAround n den * 2 ^ 52 +
    nearestWhole n (den * 2 ^ shiftAround n den)) with hlt | hfinite
  · rw [min_eq_left hlt.le]
    rw [infiniteRank_eq] at hlt
    have hinfinite : units infiniteRank * den ≤ 2 ^ 52 * (den * 2 ^ shiftAround n den) :=
      units_mul_le (by rw [infiniteRank_eq]; omega) den
    have hbeyond := hinfinite.trans (shiftAround_le (by omega))
    exact dist_le_of_le (Nat.mul_le_mul_right den (units_mono h le_rfl)) hbeyond
  · rw [min_eq_right hfinite, units_of_shifted hle (le_nearestWhole_shiftAround hden), Nat.mul_assoc,
      Nat.mul_comm _ den]
    exact dist_nearestWhole_shiftAround_le hden n rank

/-! ### Digits -/

/-- All digits together are read back. -/
theorem readBack_exactDigits (h : rank ≤ infiniteRank) : ReadBack rank 0 (exactDigits rank) := by
  obtain ⟨fives, hfives, hten⟩ := exists_tenTo_places
  have hexact : exactDigits rank = units rank * fives := by
    rw [exactDigits, hten, Nat.mul_left_comm, Nat.mul_div_cancel_left _ unitsOfOne_pos]
  rw [ReadBack, hexact, hten, tenTo_zero, Nat.mul_one]
  exact nearestRank_units h hfives

/-- A number of decimal places is at least as near to a magnitude as another, on the same side. -/
def Nearer (rank dropped digits n : ℕ) : Prop :=
  n ≤ digits ∧ digits * tenTo dropped ≤ exactDigits rank ∨
    digits ≤ n ∧ exactDigits rank ≤ digits * tenTo dropped

theorem Nearer.dist_le {n : ℕ} (h : Nearer rank dropped digits n) :
    Nat.dist (digits * tenTo dropped) (exactDigits rank) ≤
      Nat.dist (n * tenTo dropped) (exactDigits rank) := by
  rw [Nat.dist, Nat.dist]
  rcases h with ⟨hle, hexact⟩ | ⟨hle, hexact⟩
  · have := Nat.mul_le_mul_right (tenTo dropped) hle
    omega
  · have := Nat.mul_le_mul_right (tenTo dropped) hle
    omega

/-- Digits that are nearer than others that are read back are read back too. -/
theorem ReadBack.of_nearer {n : ℕ} (h : rank ≤ infiniteRank) (hn : ReadBack rank dropped n)
    (hnearer : Nearer rank dropped digits n) : ReadBack rank dropped digits := by
  have hten : 0 < tenTo places := tenTo_pos places
  have hexact : nearestRank (exactDigits rank) (tenTo places) = rank := by
    simpa only [ReadBack, tenTo_zero, Nat.mul_one] using readBack_exactDigits h
  rcases hnearer with ⟨hle, hexactLe⟩ | ⟨hle, hexactLe⟩
  · refine le_antisymm ((nearestRank_mono hten hexactLe).trans_eq hexact) ?_
    exact hn.symm.trans_le (nearestRank_mono hten (Nat.mul_le_mul_right _ hle))
  · refine le_antisymm ?_ (hexact.symm.trans_le (nearestRank_mono hten hexactLe))
    exact (nearestRank_mono hten (Nat.mul_le_mul_right _ hle)).trans_eq hn

/-- One of the two neighbours of a magnitude is nearer to it than any other digits of their length. -/
theorem nearer_neighbour (rank dropped n : ℕ) :
    n ≤ exactDigits rank / tenTo dropped ∧
        Nearer rank dropped (exactDigits rank / tenTo dropped) n ∨
      exactDigits rank / tenTo dropped < n ∧
        Nearer rank dropped (exactDigits rank / tenTo dropped + 1) n := by
  have habove : exactDigits rank < (exactDigits rank / tenTo dropped + 1) * tenTo dropped :=
    (Nat.div_lt_iff_lt_mul (tenTo_pos dropped)).1 (Nat.lt_succ_self _)
  rcases Nat.lt_or_ge (exactDigits rank / tenTo dropped) n with hlt | hle
  · exact .inr ⟨hlt, .inr ⟨hlt, habove.le⟩⟩
  · exact .inl ⟨hle, .inl ⟨hle, Nat.div_mul_le_self _ _⟩⟩

/-! ### The shortest digits -/

theorem readBack_of_shortened? (h : shortened? rank dropped = some digits) :
    ReadBack rank dropped digits := by
  simpa using List.find?_some h

theorem not_readBack_of_shortened?_eq_none (h : rank ≤ infiniteRank)
    (hnone : shortened? rank dropped = none) (n : ℕ) : ¬ ReadBack rank dropped n := by
  intro hn
  simp only [shortened?, List.find?_eq_none, List.forall_mem_cons, decide_eq_true_iff] at hnone
  obtain ⟨-, hbelow, habove, -⟩ := hnone
  rcases nearer_neighbour rank dropped n with ⟨-, hnearer⟩ | ⟨-, hnearer⟩
  · exact hbelow (hn.of_nearer h hnearer)
  · exact habove (hn.of_nearer h hnearer)

/-- Of the digits of some length that are read back, none are nearer than those that are found. -/
theorem dist_shortened?_le {n : ℕ} (h : rank ≤ infiniteRank)
    (hdigits : shortened? rank dropped = some digits) (hn : ReadBack rank dropped n) :
    Nat.dist (digits * tenTo dropped) (exactDigits rank) ≤
      Nat.dist (n * tenTo dropped) (exactDigits rank) := by
  have hread := readBack_of_shortened? hdigits
  by_cases hnear : ReadBack rank dropped (nearestWhole (exactDigits rank) (tenTo dropped))
  · rw [shortened?, List.find?_cons_of_pos (by simpa using hnear)] at hdigits
    cases hdigits
    exact dist_nearestWhole_le (tenTo_pos dropped) n
  · have hmem := List.mem_of_find?_eq_some hdigits
    simp only [List.mem_cons, List.not_mem_nil, or_false] at hmem
    have hne {m : ℕ} (hm : ReadBack rank dropped m) :
        nearestWhole (exactDigits rank) (tenTo dropped) ≠ m := fun he => hnear (he ▸ hm)
    have hother := nearestWhole_eq_or (exactDigits rank) (tenTo dropped)
    have hfound := hne hread
    -- The neighbour that is nearer than `n` is read back, so it is not the nearest but the other one.
    rcases nearer_neighbour rank dropped n with ⟨-, hnearer⟩ | ⟨-, hnearer⟩
    · have hbelow := hne (hn.of_nearer h hnearer)
      obtain rfl : digits = exactDigits rank / tenTo dropped := by omega
      exact hnearer.dist_le
    · have habove := hne (hn.of_nearer h hnearer)
      obtain rfl : digits = exactDigits rank / tenTo dropped + 1 := by omega
      exact hnearer.dist_le

/-- Digits of a magnitude, followed by some dropped ones, are read back as it, no nearer ones of their
length are, and none are with more digits dropped, up to a limit. -/
structure IsShortest (rank limit digits dropped : ℕ) : Prop where
  readBack : ReadBack rank dropped digits
  nearest : ∀ n, ReadBack rank dropped n →
    Nat.dist (digits * tenTo dropped) (exactDigits rank) ≤
      Nat.dist (n * tenTo dropped) (exactDigits rank)
  shortest : ∀ more, dropped < more → more ≤ limit → ∀ n, ¬ ReadBack rank more n

theorem isShortest_shortenedUpTo (h : rank ≤ infiniteRank) (limit : ℕ) :
    IsShortest rank limit (shortenedUpTo rank limit).1 (shortenedUpTo rank limit).2 := by
  induction limit with
  | zero =>
    rw [shortenedUpTo]
    refine ⟨readBack_exactDigits h, fun n hn => ?_, fun more hlt hle => by omega⟩
    rw [tenTo_zero, Nat.mul_one, Nat.dist_self]
    exact Nat.zero_le _
  | succ limit ih =>
    cases hs : shortened? rank (limit + 1) with
    | some digits =>
      simp only [shortenedUpTo, hs, Option.map_some, Option.getD_some]
      exact ⟨readBack_of_shortened? hs, fun n => dist_shortened?_le h hs,
        fun more hlt hle => by omega⟩
    | none =>
      simp only [shortenedUpTo, hs, Option.map_none, Option.getD_none]
      refine ⟨ih.readBack, ih.nearest, fun more hlt hle n => ?_⟩
      rcases hle.lt_or_eq with hlimit | rfl
      · exact ih.shortest more hlt (Nat.le_of_lt_succ hlimit) n
      · exact not_readBack_of_shortened?_eq_none h hs n

/-- A number is shown by digits that are read back as it. No nearer ones of their length are, and no
shorter ones, as long as one digit is left. -/
theorem isShortest_shortest (x : Double) :
    IsShortest x.rank ((Nat.toDigits 10 (exactDigits x.rank)).length - 1) (shortest x.rank).1
      (shortest x.rank).2 :=
  isShortest_shortenedUpTo x.rank_le _

example : (ofDecimal false 150 2).text = "1.5" := by decide +kernel

example : (ofDecimal true 1 5).text = "-1e-05" := by decide +kernel

end RubyInlay.Double
