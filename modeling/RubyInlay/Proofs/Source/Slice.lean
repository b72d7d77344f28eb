import RubyInlay.Proofs.Text.Utf8
import RubyInlay.Source.Tree

/-! Texts between offsets. The offsets of a tree count bytes of the encoded source. Main statements:
between the offsets at which a part of the source begins and ends stands that part; between any two
offsets stand no more characters than bytes; and text put in front of a source moves the text between
two offsets and leaves it as it is. -/

namespace RubyInlay.Source.Bytes

open Text.Utf8

theorem ofString_append (s t : String) : ofString (s ++ t) = ofString s ++ ofString t := by
  simp [ofString]

theorem size_ofString (s : String) : (ofString s).size = s.utf8ByteSize := by
  simp [ofString, length_encode]

/-- The text between the offsets of a part of the source is that part. -/
theorem text_of_split (before part after : String) :
    text (ofString (before ++ part ++ after)) before.utf8ByteSize (before ++ part).utf8ByteSize =
      part.toList := by
  rw [text, ofString_append, ofString_append, ← size_ofString before,
    ← size_ofString (before ++ part), ofString_append]
  have hpart : ((ofString before ++ ofString part ++ ofString after).extract (ofString before).size
      (ofString before ++ ofString part).size) = ofString part := by
    simp [Array.extract_append]
  rw [hpart, ofString, List.toList_toArray, decode_encode]

/-- The text between two offsets does not change with what is put in front of the source. -/
theorem text_append (front source : String) (start stop : Nat) :
    text (ofString (front ++ source)) (start + front.utf8ByteSize) (stop + front.utf8ByteSize) =
      text (ofString source) start stop := by
  rw [text, text, ofString_append, ← size_ofString front]
  have hmoved : (ofString front ++ ofString source).extract (start + (ofString front).size)
      (stop + (ofString front).size) = (ofString source).extract start stop := by
    simp [Array.extract_append]
  rw [hmoved]

/-! ### Offsets -/

/-- The offset at which the `i`-th character of a source begins, or at which the source ends if it has
no more than `i`. -/
def offset (source : String) (i : Nat) : Nat :=
  (String.ofList (source.toList.take i)).utf8ByteSize

theorem text_of_size_le {source : Bytes} {start stop : Nat} (h : source.size ≤ stop) :
    source.text start stop = source.text start source.size := by
  have hclipped : source.extract start stop = source.extract start source.size := by
    rw [Array.extract_eq_extract_right]
    omega
  rw [text, text, hclipped]

theorem offset_of_length_le {source : String} {i : Nat} (h : source.length ≤ i) :
    offset source i = (ofString source).size := by
  have hall : source.toList.take i = source.toList :=
    List.take_of_length_le (by rwa [String.length_toList])
  rw [offset, hall, String.ofList_toList, size_ofString]

theorem text_between_offsets (source : String) {i j : Nat} (h : i ≤ j) :
    text (ofString source) (offset source i) (offset source j) =
      (source.toList.take j).drop i := by
  have hbefore : source.toList.take i ++ (source.toList.take j).drop i = source.toList.take j := by
    have hfront : (source.toList.take j).take i = source.toList.take i := by
      rw [List.take_take, Nat.min_eq_left h]
    rw [← hfront, List.take_append_drop]
  have hsplit := text_of_split (String.ofList (source.toList.take i))
    (String.ofList ((source.toList.take j).drop i)) (String.ofList (source.toList.drop j))
  rwa [← String.ofList_append, ← String.ofList_append, hbefore, List.take_append_drop,
    String.ofList_toList, String.toList_ofList] at hsplit

theorem length_text_le (source : Bytes) (start stop : Nat) :
    (source.text start stop).length ≤ min stop source.size - start := by
  calc (source.text start stop).length
      ≤ (source.extract start stop).toList.length := length_decode_le _
    _ = min stop source.size - start := by rw [Array.length_toList, Array.size_extract]

/-- From the offset of one character of a source up to that of another stand these characters and no
others, so a replacement character stands there only if it is one of them; at the end of the source
the offset may be overshot. Between any two offsets there are at most as many characters as there are
bytes of the source, and none unless the first offset comes before the second. -/
theorem text_of_range (source : String) :
    (∀ i j stop, i ≤ j →
      (stop = offset source j ∨ source.length ≤ j ∧ offset source j ≤ stop) →
        text (ofString source) (offset source i) stop = (source.toList.take j).drop i) ∧
    ∀ start stop, (text (ofString source) start stop).length ≤
        min stop (ofString source).size - start ∧
      (stop ≤ start → text (ofString source) start stop = []) := by
  refine ⟨?_, fun start stop => ⟨length_text_le _ start stop, ?_⟩⟩
  · rintro i j stop hij (rfl | ⟨hj, hstop⟩)
    · exact text_between_offsets source hij
    · have hend : offset source j = (ofString source).size := offset_of_length_le hj
      rw [text_of_size_le (hend ▸ hstop), ← hend]
      exact text_between_offsets source hij
  · intro h
    have hlength := length_text_le (ofString source) start stop
    apply List.eq_nil_of_length_eq_zero
    omega

/-! In `é😀�` the characters begin at 0, 2 and 6, and the source ends at 9. -/

theorem text_of_range_to_overshot_end :
    let source := "é😀�"
    1 ≤ 3 ∧ source.length ≤ 3 ∧ offset source 3 ≤ 40 ∧
      text (ofString source) 2 40 = ['😀', Text.Utf8.replacement] ∧
      (text (ofString source) 4 8).length ≤ 4 ∧ text (ofString source) 8 4 = [] := by
  intro source
  have hone : offset source 1 = 2 := by decide +kernel
  have hend : offset source 3 = 9 := by decide +kernel
  have hsize : (ofString source).size = 9 := by decide +kernel
  have ⟨hcharacters, hbytes⟩ := text_of_range source
  have htext := hcharacters 1 3 40 (by decide) (.inr ⟨by decide, by omega⟩)
  rw [hone] at htext
  refine ⟨by decide, by decide, by omega, ?_, ?_, (hbytes 8 4).2 (by decide)⟩
  · rw [htext]
    decide +kernel
  · have hlength := (hbytes 4 8).1
    omega

end RubyInlay.Source.Bytes
