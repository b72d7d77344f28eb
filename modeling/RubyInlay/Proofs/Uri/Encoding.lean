import RubyInlay.Proofs.Text.Utf8
import RubyInlay.Proofs.Uri.Authority

/-! Paths written as URIs. A path is encoded byte by byte: letters, digits and a few marks may stand
for themselves, and any byte may be a percent sign with two digits. Main statement: the URI of a file
can be taken apart however its path is encoded, and with any query or fragment behind; whether it
names a Ruby file is decided by what follows the last slash of the path. -/

namespace RubyInlay

open Text (afterLast cutAt cutAt_append cutAt_of_not_mem hexDigit?)

/-! ### Texts behind their last mark -/

namespace Text

variable {mark : Char} {text before after : List Char}

theorem afterLast_of_notMem (h : mark ∉ text) : afterLast mark text = text := by
  have hne := bne_of_not_mem (mt List.mem_reverse.1 h)
  rw [afterLast, List.takeWhile_eq_self_iff.2 hne, List.reverse_reverse]

theorem afterLast_append (before : List Char) (h : mark ∉ after) :
    afterLast mark (before ++ mark :: after) = after := by
  have hne := bne_of_not_mem (mt List.mem_reverse.1 h)
  rw [afterLast, List.reverse_append, List.reverse_cons, List.append_assoc,
    List.takeWhile_append_of_pos hne, List.singleton_append,
    List.takeWhile_cons_of_neg (by simp), List.append_nil, List.reverse_reverse]

theorem exists_last (h : mark ∈ text) :
    ∃ before after, text = before ++ mark :: after ∧ mark ∉ after := by
  obtain ⟨after, before, hsplit, hafter⟩ := List.eq_append_cons_of_mem (List.mem_reverse.2 h)
  refine ⟨before.reverse, after.reverse, ?_, mt List.mem_reverse.1 hafter⟩
  rw [← List.reverse_reverse text, hsplit]
  simp

end Text

theorem le_toLower {c : Char} (h : c.isAlpha) : 'a' ≤ c.toLower := by
  unfold Char.toLower
  split
  · rename_i hupper
    obtain ⟨hlow, hhigh⟩ := hupper
    have hA : 'A'.val.toNat ≤ c.toNat := UInt32.le_iff_toNat_le.1 hlow
    have hZ : c.toNat ≤ 'Z'.val.toNat := UInt32.le_iff_toNat_le.1 hhigh
    have hbounds : 'A'.val.toNat = 65 ∧ 'Z'.val.toNat = 90 := ⟨rfl, rfl⟩
    show 'a'.val.toNat ≤ (c.toNat + ('a'.val - 'A'.val).toNat) % 2 ^ 32
    have hsum : 'a'.val.toNat = 97 ∧ ('a'.val - 'A'.val).toNat = 32 := ⟨rfl, rfl⟩
    omega
  · rename_i hupper
    have hletter : c.isUpper = true ∨ c.isLower = true := (Bool.or_eq_true _ _).mp h
    have hlower := hletter.resolve_left (mt of_decide_eq_true hupper)
    exact of_decide_eq_true ((Bool.and_eq_true _ _).mp hlower).1

/-! ### Names of Ruby files -/

section Names

variable {name rest : List Char} {c : Char}

/-- A file of this name holds Ruby. -/
def IsRubyName (name : List Char) : Prop :=
  name = "Gemfile".toList ∨ name = "Rakefile".toList ∨
    ∃ stem, ∃ extension ∈ [".rb", ".rake", ".gemspec", ".ru"], name = stem ++ extension.toList

/-- The part of a path behind its last slash is the name of a Ruby file. -/
def IsRubyPath (path : List Char) : Prop :=
  ∃ folder name, path = folder ++ '/' :: name ∧ '/' ∉ name ∧ IsRubyName name

theorem isRubyFileName_iff : isRubyFileName name ↔ IsRubyName name := by
  have hsuffix (extension : String) : extension.toList <:+ name ↔
      ∃ stem, name = stem ++ extension.toList := by
    simp only [List.IsSuffix, eq_comm]
  simp only [isRubyFileName, rubyFileNames, rubyExtensions, IsRubyName, List.any_cons, List.any_nil,
    Bool.or_eq_true, Bool.or_false, beq_iff_eq, List.isSuffixOf_iff_suffix, hsuffix, List.mem_cons,
    List.not_mem_nil, or_false, exists_eq_or_imp, exists_eq_left, exists_or, or_assoc, @eq_comm _ name]

/-- The first letter of a name does not decide whether it holds Ruby if a colon follows. -/
theorem isRubyName_cons_colon (hc : c ≠ '.') : IsRubyName (c :: ':' :: rest) ↔
    ∃ stem, ∃ extension ∈ [".rb", ".rake", ".gemspec", ".ru"],
      ':' :: rest = stem ++ extension.toList := by
  constructor
  · rintro (h | h | ⟨stem, extension, he, h⟩)
    · simp at h
    · simp at h
    · cases stem with
      | nil =>
        have hdot : ∀ extension ∈ [".rb", ".rake", ".gemspec", ".ru"],
            extension.toList.head? = some '.' := by decide
        have hfirst := hdot extension he
        rw [← List.nil_append extension.toList, ← h] at hfirst
        exact absurd (Option.some.inj hfirst) hc
      | cons d stem => exact ⟨stem, extension, he, (List.cons.inj h).2⟩
  · rintro ⟨stem, extension, he, h⟩
    exact .inr (.inr ⟨c :: stem, extension, he, congrArg (c :: ·) h⟩)

theorem isRubyPath_iff {path : List Char} (h : '/' ∈ path) :
    IsRubyPath path ↔ IsRubyName (afterLast '/' path) := by
  constructor
  · rintro ⟨folder, name, rfl, hname, hruby⟩
    rwa [Text.afterLast_append folder hname]
  · intro hruby
    obtain ⟨folder, name, rfl, hname⟩ := Text.exists_last h
    rw [Text.afterLast_append folder hname] at hruby
    exact ⟨folder, name, rfl, hname, hruby⟩

end Names

namespace Uri

variable {bs : List UInt8} {text : List Char} {c : Char} {n : Nat}

/-! ### Encodings -/

/-- The characters that may stand for themselves in the path of a URI. -/
def IsPlain (c : Char) : Prop :=
  'A' ≤ c ∧ c ≤ 'Z' ∨ 'a' ≤ c ∧ c ≤ 'z' ∨ '0' ≤ c ∧ c ≤ '9' ∨ c ∈ ['-', '.', '_', '~', '/']

instance (c : Char) : Decidable (IsPlain c) :=
  inferInstanceAs (Decidable (_ ∨ _))

/-- A hexadecimal digit, in either case. -/
def IsDigit (n : Nat) (c : Char) : Prop :=
  n < 16 ∧ (c = n.digitChar ∨ c = n.digitChar.toUpper)

instance (n : Nat) (c : Char) : Decidable (IsDigit n c) :=
  inferInstanceAs (Decidable (_ ∧ _))

/-- The ways to write bytes in the path of a URI. -/
inductive Encodes : List UInt8 → List Char → Prop
  | nil : Encodes [] []
  | plain {bs : List UInt8} {text : List Char} {c : Char} (hc : IsPlain c) (h : Encodes bs text) :
      Encodes (UInt8.ofNat c.toNat :: bs) (c :: text)
  | escaped {bs : List UInt8} {text : List Char} {b : UInt8} {high low : Char}
      (hhigh : IsDigit (b.toNat / 16) high) (hlow : IsDigit (b.toNat % 16) low)
      (h : Encodes bs text) : Encodes (b :: bs) ('%' :: high :: low :: text)

/-- What may follow the path: a query, a fragment or nothing. -/
inductive IsTail : List Char → Prop
  | nil : IsTail []
  | query (rest : List Char) : IsTail ('?' :: rest)
  | fragment (rest : List Char) : IsTail ('#' :: rest)

theorem IsDigit.hexDigit?_eq (h : IsDigit n c) : hexDigit? c = some n := by
  have hdigits : ∀ n < 16, hexDigit? n.digitChar = some n ∧
      hexDigit? n.digitChar.toUpper = some n := by decide
  obtain ⟨hn, rfl | rfl⟩ := h
  · exact (hdigits n hn).1
  · exact (hdigits n hn).2

theorem IsDigit.isPlain (h : IsDigit n c) : IsPlain c := by
  have hdigits : ∀ n < 16, IsPlain n.digitChar ∧ IsPlain n.digitChar.toUpper := by decide
  obtain ⟨hn, rfl | rfl⟩ := h
  · exact (hdigits n hn).1
  · exact (hdigits n hn).2

theorem IsPlain.lt (h : IsPlain c) : c.toNat < 0x80 := by
  have hle {d : Char} (h : c ≤ d) : c.toNat ≤ d.toNat := h
  rcases h with ⟨-, h⟩ | ⟨-, h⟩ | ⟨-, h⟩ | h
  · exact (hle h).trans_lt (by decide)
  · exact (hle h).trans_lt (by decide)
  · exact (hle h).trans_lt (by decide)
  · have hmarks : ∀ d ∈ ['-', '.', '_', '~', '/'], d.toNat < 0x80 := by simp
    exact hmarks c h

theorem IsPlain.bytes_cons (h : IsPlain c) (text : List Char) :
    bytes (c :: text) = UInt8.ofNat c.toNat :: bytes text := by
  have hne : c ≠ '%' := by
    rintro rfl
    revert h
    decide
  have hsize : String.utf8EncodeChar c = [UInt8.ofNat c.toNat] := by
    have hlt : c.val.toNat ≤ 0x7F := Nat.le_of_lt_succ h.lt
    simp only [String.utf8EncodeChar, if_pos hlt]
    rfl
  rw [bytes, hsize]
  · rfl
  · intro high low rest hc
    exact absurd hc hne

theorem bytes_of_encodes (h : Encodes bs text) : bytes text = bs := by
  induction h with
  | nil => rfl
  | plain hc h ih => rw [hc.bytes_cons, ih]
  | @escaped bs text b high low hhigh hlow h ih =>
    have hb : 16 * (b.toNat / 16) + b.toNat % 16 = b.toNat := Nat.div_add_mod _ _
    simp only [bytes, hhigh.hexDigit?_eq, hlow.hexDigit?_eq, ih, hb, UInt8.ofNat_toNat]

/-- Nothing in an encoded path ends it. -/
theorem Encodes.isPlain (h : Encodes bs text) : ∀ c ∈ text, IsPlain c ∨ c = '%' := by
  induction h with
  | nil => simp
  | plain hc h ih => simpa [hc] using ih
  | escaped hhigh hlow h ih => simpa [hhigh.isPlain, hlow.isPlain] using ih

theorem Encodes.notMem (h : Encodes bs text) (mark : Char) (hm : ¬ IsPlain mark)
    (hne : mark ≠ '%') : mark ∉ text := by
  intro hmem
  exact (h.isPlain mark hmem).elim hm hne

/-! ### The parts of a URI -/

theorem dropQuery_append {tail : List Char} (hquery : '?' ∉ text) (hfragment : '#' ∉ text)
    (ht : IsTail tail) : dropQuery (text ++ tail) = text := by
  have hcut (text : List Char) : dropQuery text = (cutAt '?' (cutAt '#' text).1).1 := rfl
  rw [hcut]
  cases ht with
  | nil => rw [List.append_nil, cutAt_of_not_mem hfragment, cutAt_of_not_mem hquery]
  | fragment rest => rw [cutAt_append hfragment, cutAt_of_not_mem hquery]
  | query rest =>
    have hkept : (cutAt '#' (text ++ '?' :: rest)).1 = text ++ '?' :: (cutAt '#' rest).1 := by
      show (text ++ '?' :: rest).takeWhile (· != '#') = _
      rw [List.takeWhile_append_of_pos (Text.bne_of_not_mem hfragment)]
      rfl
    rw [hkept, cutAt_append hquery]

theorem IsTail.filter {tail : List Char} (ht : IsTail tail) {p : Char → Bool} (hquery : p '?')
    (hfragment : p '#') : IsTail (tail.filter p) := by
  cases ht with
  | nil => exact .nil
  | query rest =>
    rw [List.filter_cons_of_pos hquery]
    exact .query _
  | fragment rest =>
    rw [List.filter_cons_of_pos hfragment]
    exact .fragment _

/-- A drive in front of a path loses the slash and gets a small letter, and the verdict stays as it
is. -/
theorem isRubyName_withoutDriveSlash (rest : List Char) :
    IsRubyName (afterLast '/' (withoutDriveSlash ('/' :: rest))) ↔ IsRubyPath ('/' :: rest) := by
  rw [isRubyPath_iff List.mem_cons_self]
  unfold withoutDriveSlash
  split
  · rename_i c rest hpath
    rw [hpath]
    split
    · rename_i hc
      have hlower := le_toLower hc
      by_cases hslash : '/' ∈ rest
      · obtain ⟨folder, name, rfl, hname⟩ := Text.exists_last hslash
        have hdrive : afterLast '/' (c.toLower :: ':' :: (folder ++ '/' :: name)) = name :=
          Text.afterLast_append (c.toLower :: ':' :: folder) hname
        have hpath : afterLast '/' ('/' :: c :: ':' :: (folder ++ '/' :: name)) = name :=
          Text.afterLast_append ('/' :: c :: ':' :: folder) hname
        rw [hdrive, hpath]
      · have hne {d : Char} (hd : d ≠ '/') : '/' ∉ d :: ':' :: rest := by
          simp [hslash, Ne.symm hd]
        have hdrive : afterLast '/' (c.toLower :: ':' :: rest) = c.toLower :: ':' :: rest :=
          Text.afterLast_of_notMem (hne (by rintro e; rw [e] at hlower; revert hlower; decide))
        have hpath : afterLast '/' ('/' :: c :: ':' :: rest) = c :: ':' :: rest :=
          Text.afterLast_append [] (hne (by rintro rfl; revert hc; decide))
        rw [hdrive, hpath, isRubyName_cons_colon, isRubyName_cons_colon]
        · rintro rfl; revert hc; decide
        · rintro e; rw [e] at hlower; revert hlower; decide
    · rfl
  · rfl

theorem exists_clean_encoded {tail : List Char} (h : Encodes bs text) (ht : IsTail tail) :
    ∃ tail', IsTail tail' ∧
      clean ("file:///".toList ++ text ++ tail) = "file:///".toList ++ text ++ tail' := by
  have hkept : ∀ c ∈ text, (c != '\t' && c != '\n' && c != '\r') = true := by
    intro c hc
    have htab := Text.bne_of_not_mem (h.notMem '\t' (by decide) (by decide)) c hc
    have hline := Text.bne_of_not_mem (h.notMem '\n' (by decide) (by decide)) c hc
    have hreturn := Text.bne_of_not_mem (h.notMem '\r' (by decide) (by decide)) c hc
    simp only [htab, hline, hreturn, Bool.and_self]
  refine ⟨_, ht.filter (p := fun c => c != '\t' && c != '\n' && c != '\r') rfl rfl, ?_⟩
  show ("file:///".toList ++ text ++ tail).filter _ = _
  rw [List.filter_append, List.filter_append, List.filter_eq_self.2 hkept]
  rfl

/-- However it is encoded, and whatever follows it, the path of a file is read back. -/
theorem ofText_encoded {path tail : List Char} (h : Encodes (Text.Utf8.encode path) text)
    (ht : IsTail tail) :
    ofText ("file:///".toList ++ text ++ tail) = .ok ⟨"file".toList, [], '/' :: path⟩ := by
  obtain ⟨tail', ht', hclean⟩ := exists_clean_encoded h ht
  have hscheme : cutScheme ("file:///".toList ++ text ++ tail') =
      ("file".toList, "///".toList ++ text ++ tail') := rfl
  have hauthority : cutAuthority ("///".toList ++ text ++ tail') = ([], '/' :: text ++ tail') := rfl
  have hslash : Encodes (Text.Utf8.encode ('/' :: path)) ('/' :: text) :=
    Encodes.plain (by decide) h
  have hquery : dropQuery ('/' :: text ++ tail') = '/' :: text :=
    dropQuery_append (hslash.notMem '?' (by decide) (by decide))
      (hslash.notMem '#' (by decide) (by decide)) ht'
  have hpath : resolve ('/' :: text) = '/' :: path := by
    rw [resolve, bytes_of_encodes hslash, Text.Utf8.decode_encode]
  have hfile : resolve "file".toList = "file".toList := by decide
  have hparameters : dropParameters "file".toList ('/' :: text) = '/' :: text := rfl
  simp only [ofText, hclean, hscheme, hauthority, hquery, hparameters, hpath, hfile,
    Authority.error?_nil]
  rfl

end Uri

open Uri (Encodes IsTail)

/-- The URI of a file names a Ruby file exactly if the path does, however the path is encoded and
whatever follows it. -/
theorem namesRubyFile_encoded {path text tail : String}
    (h : Encodes (Text.Utf8.encode path.toList) text.toList) (ht : IsTail tail.toList) :
    ∃ ruby, namesRubyFile ("file:///" ++ text ++ tail) = .ok ruby ∧
      (ruby ↔ IsRubyPath ("/" ++ path).toList) := by
  have hread : Uri.ofText ("file:///" ++ text ++ tail).toList =
      .ok ⟨"file".toList, [], '/' :: path.toList⟩ := by
    rw [String.toList_append, String.toList_append]
    exact Uri.ofText_encoded h ht
  refine ⟨_, by rw [namesRubyFile, hread]; rfl, ?_⟩
  rw [String.toList_append, isRubyFileName_iff]
  exact Uri.isRubyName_withoutDriveSlash path.toList

/-! The path `/C:/ü#.rb` begins with a drive, and its last segment has a letter of two bytes and a
mark that would begin a fragment. -/

theorem drive_path_names_ruby_file :
    Encodes (Text.Utf8.encode "C:/ü#.rb".toList) "C%3a/%c3%BC%23.rb".toList ∧
      IsTail "?v=1#x.py".toList ∧ IsRubyPath "/C:/ü#.rb".toList ∧
      namesRubyFile ("file:///" ++ "C%3a/%c3%BC%23.rb" ++ "?v=1#x.py") = .ok true := by
  have hencodes : Encodes (Text.Utf8.encode "C:/ü#.rb".toList) "C%3a/%c3%BC%23.rb".toList := by
    show Encodes [0x43, 0x3A, 0x2F, 0xC3, 0xBC, 0x23, 0x2E, 0x72, 0x62]
      ['C', '%', '3', 'a', '/', '%', 'c', '3', '%', 'B', 'C', '%', '2', '3', '.', 'r', 'b']
    apply Encodes.plain (c := 'C') (by decide)
    apply Encodes.escaped (by decide) (by decide)
    apply Encodes.plain (c := '/') (by decide)
    apply Encodes.escaped (by decide) (by decide)
    apply Encodes.escaped (by decide) (by decide)
    apply Encodes.escaped (by decide) (by decide)
    apply Encodes.plain (c := '.') (by decide)
    apply Encodes.plain (c := 'r') (by decide)
    apply Encodes.plain (c := 'b') (by decide)
    exact Encodes.nil
  have htail : IsTail "?v=1#x.py".toList := .query _
  have hruby : IsRubyPath "/C:/ü#.rb".toList :=
    ⟨"/C:".toList, "ü#.rb".toList, by decide, by decide,
      .inr (.inr ⟨"ü#".toList, ".rb", by decide, by decide⟩)⟩
  obtain ⟨ruby, hnames, hiff⟩ := namesRubyFile_encoded hencodes htail
  have htrue : ruby = true := hiff.2 hruby
  exact ⟨hencodes, htail, hruby, htrue ▸ hnames⟩

end RubyInlay
