import Mathlib.Algebra.Group.Nat.Defs
import Mathlib.Tactic.SplitIfs
import RubyInlay.Text.Utf8

/-! Decoding what has been encoded. A character of more than one byte is a first byte that opens a
sequence and the groups of six bits that are left of its number, the highest first. Main statements:
decoding gives back the characters of their encoding, whatever follows, and of any bytes it makes no
more characters than there are bytes. -/

namespace RubyInlay.Text.Utf8

variable {p : Partial} {v n b : Nat} {bytes : List UInt8}

/-! ### Sequences -/

/-- The lowest groups of six bits of a number, each in a byte of its own. -/
def continuation (v : Nat) : Nat → List UInt8
  | 0 => []
  | n + 1 => UInt8.ofNat (0x80 + v / 0x40 ^ n % 0x40) :: continuation v n

/-- A sequence that has begun with all but the lowest groups of a number, one and `n` more, and that
admits the next of them. -/
structure Partial.Opens (p : Partial) (v n : Nat) : Prop where
  after : p.after = n
  value : p.value = v / 0x40 ^ (n + 1)
  low : p.low ≤ 0x80 + v / 0x40 ^ n % 0x40
  high : 0x80 + v / 0x40 ^ n % 0x40 ≤ p.high

theorem decodeFrom_some_cons (hlow : p.low ≤ b) (hhigh : b ≤ p.high) (hb : b < 0x100) :
    decodeFrom (some p) (UInt8.ofNat b :: bytes) =
      (p.extend b).1 ++ decodeFrom (p.extend b).2 bytes := by
  have hbyte : (UInt8.ofNat b).toNat = b := by simp; omega
  rw [decodeFrom, hbyte, step, if_pos ⟨hlow, hhigh⟩]

theorem div_mul_add_mod (v n : Nat) :
    v / 0x40 ^ (n + 1) * 0x40 + v / 0x40 ^ n % 0x40 = v / 0x40 ^ n := by
  rw [Nat.pow_succ, ← Nat.div_div_eq_div_mul]
  exact Nat.div_add_mod' _ _

/-- The rest of the groups closes a sequence that they belong to. -/
theorem decodeFrom_continuation (h : p.Opens v n) (bytes : List UInt8) :
    decodeFrom (some p) (continuation v (n + 1) ++ bytes) = Char.ofNat v :: decode bytes := by
  induction n generalizing p with
  | zero =>
    have hvalue : p.value * 0x40 + v % 0x40 = v := by
      have := div_mul_add_mod v 0
      rw [h.value]
      simpa using this
    rw [continuation, List.cons_append, decodeFrom_some_cons h.low h.high (by omega)]
    simp [Partial.extend, h.after, hvalue, continuation, decode]
  | succ n ih =>
    have hopens : Partial.Opens ⟨v / 0x40 ^ (n + 1), 0x80, 0xBF, n⟩ v n :=
      ⟨rfl, rfl, by simp, by simp only; omega⟩
    rw [continuation, List.cons_append, decodeFrom_some_cons h.low h.high (by omega), ← ih hopens]
    simp [Partial.extend, h.after, h.value, div_mul_add_mod]

/-! ### First bytes -/

theorem decodeFrom_none_cons (hb : b < 0x100) :
    decodeFrom none (UInt8.ofNat b :: bytes) = (start b).1 ++ decodeFrom (start b).2 bytes := by
  have hbyte : (UInt8.ofNat b).toNat = b := by simp; omega
  rw [decodeFrom, hbyte, step]

/-- A first byte that opens a sequence is followed by the rest of it. -/
theorem decode_opening (hb : b < 0x100) (hs : start b = ([], some p)) (h : p.Opens v n)
    (bytes : List UInt8) :
    decode (UInt8.ofNat b :: continuation v (n + 1) ++ bytes) = Char.ofNat v :: decode bytes := by
  rw [List.cons_append, decode, decodeFrom_none_cons hb, hs]
  exact decodeFrom_continuation h bytes

theorem exists_start_of_two (hlow : 0x80 ≤ v) (hhigh : v ≤ 0x7FF) :
    ∃ p, start (v / 0x40 + 0xC0) = ([], some p) ∧ p.Opens v 0 := by
  refine ⟨⟨v / 0x40 + 0xC0 - 0xC0, 0x80, 0xBF, 0⟩, ?_, ?_⟩
  · rw [start, if_neg (by omega), if_neg (by omega), if_pos (by omega)]
  · constructor <;> dsimp only <;> omega

/-- The bounds of the second byte leave out what two bytes would do for, and the numbers that are no
characters. -/
theorem exists_start_of_three (hlow : 0x800 ≤ v) (hhigh : v ≤ 0xFFFF)
    (hvalid : v < 0xD800 ∨ 0xDFFF < v) :
    ∃ p, start (v / 0x1000 + 0xE0) = ([], some p) ∧ p.Opens v 1 := by
  rw [start, if_neg (by omega), if_neg (by omega), if_neg (by omega)]
  by_cases hfirst : v / 0x1000 + 0xE0 = 0xE0
  · rw [if_pos hfirst]
    exact ⟨_, rfl, by constructor <;> dsimp only <;> omega⟩
  rw [if_neg hfirst]
  by_cases hsurrogate : v / 0x1000 + 0xE0 = 0xED
  · rw [if_pos hsurrogate]
    exact ⟨_, rfl, by constructor <;> dsimp only <;> omega⟩
  · rw [if_neg hsurrogate, if_pos (by omega)]
    exact ⟨_, rfl, by constructor <;> dsimp only <;> omega⟩

theorem exists_start_of_four (hlow : 0x10000 ≤ v) (hhigh : v < 0x110000) :
    ∃ p, start (v / 0x40000 + 0xF0) = ([], some p) ∧ p.Opens v 2 := by
  rw [start, if_neg (by omega), if_neg (by omega), if_neg (by omega), if_neg (by omega),
    if_neg (by omega), if_neg (by omega)]
  by_cases hfirst : v / 0x40000 + 0xF0 = 0xF0
  · rw [if_pos hfirst]
    exact ⟨_, rfl, by constructor <;> dsimp only <;> omega⟩
  rw [if_neg hfirst]
  by_cases hinner : v / 0x40000 + 0xF0 < 0xF4
  · rw [if_pos hinner]
    exact ⟨_, rfl, by constructor <;> dsimp only <;> omega⟩
  · rw [if_neg hinner, if_pos (by omega)]
    exact ⟨_, rfl, by constructor <;> dsimp only <;> omega⟩

/-! ### Characters -/

/-- A character is read back from its bytes, and what follows them is read as if it stood alone. -/
theorem decode_encodeChar (c : Char) (bytes : List UInt8) :
    decode (String.utf8EncodeChar c ++ bytes) = c :: decode bytes := by
  have hvalid : c.val.toNat < 0xD800 ∨ 0xDFFF < c.val.toNat ∧ c.val.toNat < 0x110000 := c.valid
  have hc : Char.ofNat c.val.toNat = c := Char.ofNat_toNat c
  suffices h : decode (String.utf8EncodeChar c ++ bytes) =
      Char.ofNat c.val.toNat :: decode bytes by
    rwa [hc] at h
  unfold String.utf8EncodeChar
  generalize c.val.toNat = v at hvalid ⊢
  dsimp only
  split_ifs with hone htwo hthree
  · rw [List.singleton_append, decode, decodeFrom_none_cons (by omega), start, if_pos (by omega)]
    rfl
  · obtain ⟨p, hp, hopens⟩ := exists_start_of_two (by omega) htwo
    have hfirst : v / 64 % 32 = v / 64 := by omega
    have hread := decode_opening (by omega) hp hopens bytes
    simpa [continuation, hfirst, Nat.add_comm] using hread
  · obtain ⟨p, hp, hopens⟩ := exists_start_of_three (by omega) hthree (by omega)
    have hfirst : v / 4096 % 16 = v / 4096 := by omega
    have hread := decode_opening (by omega) hp hopens bytes
    simpa [continuation, hfirst, Nat.add_comm] using hread
  · have hhigh : v < 0x110000 := by omega
    obtain ⟨p, hp, hopens⟩ := exists_start_of_four (by omega) hhigh
    have hfirst : v / 262144 % 8 = v / 262144 := by omega
    have hread := decode_opening (by omega) hp hopens bytes
    simpa [continuation, hfirst, Nat.add_comm] using hread

/-- Decoding takes back an encoding. -/
theorem decode_encode_append (text : List Char) (bytes : List UInt8) :
    decode (encode text ++ bytes) = text ++ decode bytes := by
  induction text with
  | nil => rfl
  | cons c text ih =>
    rw [encode_cons, List.append_assoc, decode_encodeChar, ih, List.cons_append]

@[simp] theorem decode_encode (text : List Char) : decode (encode text) = text := by
  simpa using decode_encode_append text []

/-! ### Sizes -/

theorem length_encode (s : String) : (encode s.toList).length = s.utf8ByteSize := by
  rw [String.utf8ByteSize, ← String.utf8Encode_toList]
  simp [encode, List.utf8Encode]

theorem length_le_length_encode (text : List Char) : text.length ≤ (encode text).length := by
  induction text with
  | nil => simp
  | cons c text ih =>
    have hc := c.utf8Size_pos
    simp only [encode_cons, List.length_append, List.length_cons, String.length_utf8EncodeChar]
    omega

/-- A text has as many bytes as characters if all of them are ASCII, and else it has more. -/
theorem length_encode_eq_iff (text : List Char) :
    (encode text).length = text.length ↔ ∀ c ∈ text, c.toNat < 0x80 := by
  induction text with
  | nil => simp
  | cons c text ih =>
    have hc := c.utf8Size_pos
    have hle := length_le_length_encode text
    have hascii : c.utf8Size = 1 ↔ c.toNat < 0x80 := by
      rw [Char.utf8Size_eq_one_iff, UInt32.le_iff_toNat_le]
      exact Nat.lt_succ_iff.symm
    rw [List.forall_mem_cons, ← ih, ← hascii, encode_cons, List.length_append, List.length_cons,
      String.length_utf8EncodeChar]
    omega

/-! A byte settles a character or stays in an open sequence. The replacement for a sequence that is cut
short is on account of the bytes in it. -/

theorem length_start (b : Nat) : (start b).1.length + (start b).2.toList.length = 1 := by
  unfold start
  split_ifs <;> rfl

theorem length_extend (p : Partial) (b : Nat) :
    (p.extend b).1.length + (p.extend b).2.toList.length = 1 := by
  unfold Partial.extend
  cases p.after <;> rfl

theorem length_step_le (pending : Option Partial) (b : Nat) :
    (step pending b).1.length + (step pending b).2.toList.length ≤ pending.toList.length + 1 := by
  have hstart := length_start b
  cases pending with
  | none => exact Nat.le_of_eq hstart
  | some p =>
    have hextend := length_extend p b
    unfold step
    dsimp only
    split_ifs
    · simp only [Option.toList_some, List.length_singleton]
      omega
    · simp only [List.length_cons, Option.toList_some]
      omega

theorem length_decodeFrom_le (pending : Option Partial) (bytes : List UInt8) :
    (decodeFrom pending bytes).length ≤ pending.toList.length + bytes.length := by
  induction bytes generalizing pending with
  | nil => cases pending <;> simp [decodeFrom]
  | cons b bytes ih =>
    have hstep := length_step_le pending b.toNat
    have hrest := ih (step pending b.toNat).2
    rw [decodeFrom, List.length_append, List.length_cons]
    omega

theorem length_decode_le (bytes : List UInt8) : (decode bytes).length ≤ bytes.length := by
  have h := length_decodeFrom_le none bytes
  rwa [Option.toList_none, List.length_nil, Nat.zero_add] at h

end RubyInlay.Text.Utf8
