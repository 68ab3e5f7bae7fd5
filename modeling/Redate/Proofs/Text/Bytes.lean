/-
Texts as bytes. A part of a text can be cut out only where characters begin or end, and the cut is
then one between characters. A text is read item by item, each with its own cut. ASCII characters
are one byte each and all other characters are made of bytes outside ASCII, so that digits are
counted, and letters are compared up to their case, byte by byte as character by character.
-/
import Mathlib
import Redate.Text.Bytes

namespace Redate

/-! ## Cutting between characters -/

theorem utf8ByteSize_ofList_eq (text : List Char) :
    (String.ofList text).utf8ByteSize = byteLength text := by
  rw [String.utf8ByteSize_ofList]
  induction text with
  | nil => rfl
  | cons c text ih => rw [String.utf8Len_cons, byteLength_cons, ih, Nat.add_comm]

theorem isBoundary_iff {text : List Char} {n : Nat} :
    IsBoundary text n ↔ ∃ before behind, text = before ++ behind ∧ byteLength before = n := by
  rw [IsBoundary, String.Pos.Raw.isValid_ofList]
  constructor
  · rintro ⟨i, hi⟩
    exact ⟨text.take i, text.drop i, (List.take_append_drop i text).symm,
      by rw [← utf8ByteSize_ofList_eq, ← hi]⟩
  · rintro ⟨before, behind, rfl, rfl⟩
    exact ⟨before.length, by rw [List.take_left, utf8ByteSize_ofList_eq]⟩

namespace Span

theorem cuts_iff {s : Span} {text : List Char} :
    s.Cuts text ↔ ∃ before part behind, text = before ++ part ++ behind ∧
      s = ⟨byteLength before, byteLength before + byteLength part⟩ := by
  constructor
  · rintro ⟨hle, h₁, h₂⟩
    obtain ⟨before, rest, rfl, hs⟩ := isBoundary_iff.1 h₁
    obtain ⟨front, behind, ht, hf⟩ := isBoundary_iff.1 h₂
    rcases List.append_eq_append_iff.1 ht with ⟨part, rfl, rfl⟩ | ⟨more, rfl, -⟩
    · refine ⟨before, part, behind, (List.append_assoc ..).symm, ?_⟩
      rw [byteLength_append] at hf
      exact (Span.mk.injEq ..).mpr ⟨hs.symm, hf.symm⟩
    · -- the end does not lie before the start, so the two are the same place
      obtain rfl : more = [] := by
        by_contra hne
        have := byteLength_pos hne
        rw [byteLength_append] at hs
        omega
      rw [List.append_nil] at hs
      refine ⟨front, [], rest, by simp, ?_⟩
      exact (Span.mk.injEq ..).mpr ⟨hs.symm, hf.symm⟩
  · rintro ⟨before, part, behind, rfl, rfl⟩
    refine ⟨Nat.le_add_right _ _, isBoundary_iff.2 ⟨before, part ++ behind, by simp, rfl⟩, ?_⟩
    exact isBoundary_iff.2 ⟨before ++ part, behind, rfl, byteLength_append _ _⟩

theorem Cuts.slice?_eq {s : Span} {text : List Char} (h : s.Cuts text) :
    s.slice? text = some (s.slice text) :=
  if_pos h

theorem slice?_eq_some_iff {s : Span} {text part : List Char} :
    s.slice? text = some part ↔ ∃ before behind, text = before ++ part ++ behind ∧
      s = ⟨byteLength before, byteLength before + byteLength part⟩ := by
  unfold slice?
  constructor
  · intro h
    split at h
    · next hc =>
      obtain ⟨before, part', behind, rfl, rfl⟩ := cuts_iff.1 hc
      rw [slice_between] at h
      cases h
      exact ⟨before, behind, rfl, rfl⟩
    · cases h
  · rintro ⟨before, behind, rfl, rfl⟩
    rw [if_pos (cuts_iff.2 ⟨before, part, behind, rfl, rfl⟩), slice_between]

theorem slice?_between (before part behind : List Char) :
    slice? ⟨byteLength before, byteLength before + byteLength part⟩ (before ++ part ++ behind) =
      some part :=
  slice?_eq_some_iff.2 ⟨before, behind, rfl, rfl⟩

/-- A word of the length of the span is what is cut off the front of a text just when the text
begins with it. -/
theorem slice?_front_eq_some_iff {text word : List Char} :
    slice? ⟨0, byteLength word⟩ text = some word ↔ ∃ behind, text = word ++ behind := by
  rw [slice?_eq_some_iff]
  constructor
  · rintro ⟨before, behind, rfl, hs⟩
    obtain rfl : before = [] := by
      by_contra hne
      have := byteLength_pos hne
      have := congrArg Span.start hs
      simp only at this
      omega
    exact ⟨behind, rfl⟩
  · rintro ⟨behind, rfl⟩
    exact ⟨[], behind, rfl, by simp⟩

/-- What is cut off behind a front of the text is the rest of it. -/
theorem slice?_behind (front rest : List Char) :
    slice? ⟨byteLength front, byteLength (front ++ rest)⟩ (front ++ rest) = some rest := by
  have h := slice?_between front rest []
  rwa [List.append_nil, ← byteLength_append] at h

end Span

/-! ## Reading item by item -/

/-- Where `next` always takes something, and it is the first item that `items` has, the items are
those of `items`. -/
theorem itemsBy?_eq {α : Type} {next : List Char → Option (α × List Char)}
    {items : List Char → List α} (hnil : items [] = [])
    (h : ∀ c rest, ∃ a taken behind, next (c :: rest) = some (a, behind) ∧
      c :: rest = taken ++ behind ∧ taken ≠ [] ∧ items (c :: rest) = a :: items behind)
    (text : List Char) : itemsBy? next text = some (items text) := by
  fun_induction itemsBy? next text with
  | case1 => rw [hnil]
  | case2 c rest a behind hn hl ih =>
    obtain ⟨a', taken, behind', hn', -, -, hi⟩ := h c rest
    cases hn.symm.trans hn'
    rw [ih, hi]
    rfl
  | case3 c rest a behind hn hl =>
    obtain ⟨a', taken, behind', hn', ht, hne, -⟩ := h c rest
    cases hn.symm.trans hn'
    have hlen := congrArg List.length ht
    have hpos := List.length_pos_iff.2 hne
    rw [List.length_cons, List.length_append] at hlen
    omega
  | case4 c rest hn =>
    obtain ⟨a, taken, behind, hn', -⟩ := h c rest
    cases hn.symm.trans hn'

/-! ## ASCII characters -/

theorem utf8_injective {a b : List Char} (h : utf8 a = utf8 b) : a = b := by
  have hb : (String.ofList a).toByteArray = (String.ofList b).toByteArray := by
    rw [String.toByteArray_ofList, String.toByteArray_ofList]
    exact congrArg List.toByteArray h
  exact String.ofList_injective (String.toByteArray_inj.1 hb)

/-- An ASCII character is one byte, and all bytes of any other are outside ASCII. -/
theorem utf8EncodeChar_cases (c : Char) :
    (c.toNat < 128 ∧ String.utf8EncodeChar c = [c.toNat.toUInt8]) ∨
      (128 ≤ c.toNat ∧ ∀ b ∈ String.utf8EncodeChar c, 128 ≤ b.toNat) := by
  have hv : c.val.toNat = c.toNat := rfl
  unfold String.utf8EncodeChar
  simp only [hv]
  by_cases h : c.toNat ≤ 0x7f
  · exact .inl ⟨by omega, if_pos h⟩
  · refine .inr ⟨by omega, ?_⟩
    rw [if_neg h]
    intro b hb
    split at hb
    · simp only [List.mem_cons, List.not_mem_nil, or_false] at hb
      rcases hb with rfl | rfl <;> rw [UInt8.toNat_ofNat'] <;> omega
    · split at hb <;> simp only [List.mem_cons, List.not_mem_nil, or_false] at hb
      · rcases hb with rfl | rfl | rfl <;> rw [UInt8.toNat_ofNat'] <;> omega
      · rcases hb with rfl | rfl | rfl | rfl <;> rw [UInt8.toNat_ofNat'] <;> omega

/-! ## Digits -/

theorem isDigitByte_toUInt8 {c : Char} (h : c.toNat < 128) :
    isDigitByte c.toNat.toUInt8 = c.isDigit := by
  have hb : c.toNat.toUInt8.toNat = c.toNat := UInt8.toNat_ofNat_of_lt' (Nat.lt_trans h (by decide))
  rw [Bool.eq_iff_iff, Char.isDigit_iff_toNat, isDigitByte, hb, decide_eq_true_iff]

theorem countDigits_eq (most : Nat) (text : List Char) :
    countDigits most text = ((text.take most).takeWhile Char.isDigit).length := by
  unfold countDigits
  induction text generalizing most with
  | nil => simp [utf8]
  | cons c text ih =>
    cases most with
    | zero => rfl
    | succ most =>
      rw [utf8, List.flatMap_cons, ← utf8, List.take_succ_cons]
      rcases utf8EncodeChar_cases c with ⟨hc, he⟩ | ⟨hc, hb⟩
      · rw [he, List.singleton_append, List.take_succ_cons]
        cases hd : c.isDigit with
        | true =>
          rw [List.takeWhile_cons_of_pos ((isDigitByte_toUInt8 hc).trans hd),
            List.takeWhile_cons_of_pos hd, List.length_cons, List.length_cons, ih]
        | false =>
          rw [List.takeWhile_cons_of_neg (by rw [isDigitByte_toUInt8 hc, hd]; decide),
            List.takeWhile_cons_of_neg (by rw [hd]; decide)]
          rfl
      · -- neither the character nor its first byte is a digit
        obtain ⟨b, bs, he⟩ := List.exists_cons_of_ne_nil (String.utf8EncodeChar_ne_nil (c := c))
        have hb : 128 ≤ b.toNat := hb b (by simp [he])
        have hd : ¬ c.isDigit := by
          rw [Char.isDigit_iff_toNat]
          have : '9'.toNat = 57 := rfl
          omega
        have hdb : ¬ isDigitByte b := by
          simp only [isDigitByte, decide_eq_true_iff]
          have : '9'.toNat = 57 := rfl
          omega
        rw [he, List.cons_append, List.take_succ_cons, List.takeWhile_cons_of_neg hdb,
          List.takeWhile_cons_of_neg hd]
        rfl

/-! ## Letters up to their case -/

theorem toNat_lt_of_isUpper {c : Char} (h : c.isUpper) : c.toNat < 128 := by
  simp only [Char.isUpper, ge_iff_le, UInt32.le_iff_toNat_le, Char.reduceVal, UInt32.reduceToNat,
    decide_eq_true_eq] at h
  have : c.val.toNat = c.toNat := rfl
  omega

theorem map_lowerByte_utf8EncodeChar (c : Char) :
    (String.utf8EncodeChar c).map lowerByte = String.utf8EncodeChar c.toLower := by
  rcases utf8EncodeChar_cases c with ⟨hc, -⟩ | ⟨hc, hb⟩
  · have h : ∀ n < 128, (String.utf8EncodeChar (Char.ofNat n)).map lowerByte =
        String.utf8EncodeChar (Char.ofNat n).toLower := by decide
    simpa using h c.toNat hc
  · have hu : ¬ c.isUpper := fun h => absurd (toNat_lt_of_isUpper h) (by omega)
    have hl : ∀ b ∈ String.utf8EncodeChar c, lowerByte b = id b := by
      intro b hm
      have := hb b hm
      have : 'Z'.toNat = 90 := rfl
      exact if_neg (by omega)
    rw [Char.toLower_eq_of_not_isUpper hu, List.map_congr_left hl, List.map_id]

theorem utf8Size_toLower (c : Char) : c.toLower.utf8Size = c.utf8Size := by
  rw [← String.length_utf8EncodeChar, ← map_lowerByte_utf8EncodeChar, List.length_map,
    String.length_utf8EncodeChar]

theorem byteLength_map_toLower (text : List Char) :
    byteLength (text.map Char.toLower) = byteLength text := by
  induction text with
  | nil => rfl
  | cons c text ih => rw [List.map_cons, byteLength_cons, byteLength_cons, utf8Size_toLower, ih]

theorem byteLength_eq_of_map_toLower_eq {a b : List Char}
    (h : a.map Char.toLower = b.map Char.toLower) : byteLength a = byteLength b := by
  rw [← byteLength_map_toLower a, h, byteLength_map_toLower]

theorem sameBytes_iff {a b : List Char} :
    sameBytes a b ↔ a.map Char.toLower = b.map Char.toLower := by
  have hl : ∀ text, (utf8 text).map lowerByte = utf8 (text.map Char.toLower) := by
    intro text
    rw [utf8, utf8, List.map_flatMap, List.flatMap_map]
    exact List.flatMap_congr fun c _ => map_lowerByte_utf8EncodeChar c
  rw [sameBytes, beq_iff_eq, hl, hl]
  exact ⟨utf8_injective, congrArg utf8⟩

/-- What has the bytes of a word up to case, and is as long, is the word at the front up to case. -/
theorem filter_sameBytes_eq_some_iff {word text w : List Char} :
    (Span.slice? ⟨0, byteLength word⟩ text).filter (sameBytes · word) = some w ↔
      w.map Char.toLower = word.map Char.toLower ∧ ∃ rest, text = w ++ rest := by
  rw [Option.filter_eq_some_iff, sameBytes_iff, and_comm]
  refine and_congr_right fun h => ?_
  rw [← byteLength_eq_of_map_toLower_eq h, Span.slice?_front_eq_some_iff]

end Redate
