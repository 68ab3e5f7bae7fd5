/-
Reading through a template by bytes. Text is cut off as many bytes behind as a spelling, a run of
digits or a month name is long, and numbers are put together in machine words; a cut that splits a
character or leaves the text, and a number that does not fit, leave the result undefined. For no
template and no text this happens: what is read by bytes is what is read by characters.
-/
import Redate.Proofs.Template.Grammar
import Redate.Proofs.Text.Bytes

namespace Redate

/-! ## The items of a template -/

theorem Slot.mem_all (s : Slot) : s ∈ Slot.all := by
  cases s <;> decide

namespace Template

theorem ofText_spelling_append (s : Slot) (rest : List Char) :
    ofText (s.spelling ++ rest) = .slot s :: ofText rest := by
  cases s <;> rfl

theorem ofText_literal {c : Char} {rest : List Char} (h : ∀ s : Slot, ¬ s.spelling <+: c :: rest) :
    ofText (c :: rest) = .literal c :: ofText rest := by
  generalize ht : c :: rest = text at h ⊢
  fun_cases ofText text with
  | case1 => cases ht
  | case2 rest => exact absurd ⟨rest, rfl⟩ (h .year)
  | case3 rest => exact absurd ⟨rest, rfl⟩ (h .shortYear)
  | case4 rest => exact absurd ⟨rest, rfl⟩ (h .paddedMonth)
  | case5 rest => exact absurd ⟨rest, rfl⟩ (h .month)
  | case6 rest => exact absurd ⟨rest, rfl⟩ (h .shortMonthName)
  | case7 rest => exact absurd ⟨rest, rfl⟩ (h .monthName)
  | case8 rest => exact absurd ⟨rest, rfl⟩ (h .paddedDay)
  | case9 rest => exact absurd ⟨rest, rfl⟩ (h .day)
  | case10 => cases ht; rfl

theorem itemsByBytes_eq (template : List Char) :
    itemsByBytes template = some (ofText template) := by
  refine itemsBy?_eq rfl (fun c rest => ?_) template
  rw [nextItem?]
  cases h : Slot.all.find? (·.spelling.isPrefixOf (c :: rest)) with
  | some s =>
    obtain ⟨behind, hb⟩ : s.spelling <+: c :: rest := by simpa using List.find?_some h
    refine ⟨.slot s, s.spelling, behind, ?_, hb.symm, by cases s <;> decide, ?_⟩
    · simp only [← hb, Span.slice?_behind, Option.map_some]
    · rw [← hb, ofText_spelling_append]
  | none =>
    refine ⟨.literal c, [c], rest, rfl, rfl, by simp, ofText_literal fun s hs => ?_⟩
    exact List.find?_eq_none.1 h s s.mem_all (List.isPrefixOf_iff_prefix.2 hs)

end Template

/-! ## Numbers in machine words -/

theorem wordOf?_eq {digits : List Char} (h : digitsValue digits < UInt32.size) :
    wordOf? digits = some (digitsValue digits).toUInt32 := by
  unfold wordOf?
  induction digits using List.reverseRecOn with
  | nil => rfl
  | append_singleton digits c ih =>
    have hv : digitsValue (digits ++ [c]) =
        10 * digitsValue digits + (c.toNat - '0'.toNat) := by
      simp [digitsValue]
    rw [hv] at h ⊢
    have hd : digitsValue digits < UInt32.size := by omega
    have hn : (digitsValue digits).toUInt32.toNat = digitsValue digits :=
      UInt32.toNat_ofNat_of_lt' hd
    rw [List.foldlM_append, ih hd]
    simp only [Option.bind_eq_bind, Option.bind_some, List.foldlM_cons, List.foldlM_nil,
      appendDigit?, hn, if_pos h, Option.pure_def]

/-! ## What a slot takes -/

/-- What a slot has taken from a text, told by its length in bytes, and the number as a word. -/
def inBytes (text : List Char) (taken : Nat × List Char) : Nat × UInt32 :=
  (byteLength text - byteLength taken.2, taken.1.toUInt32)

theorem byteLength_of_isDigit {w : List Char} (h : ∀ c ∈ w, c.isDigit) :
    byteLength w = w.length := by
  induction w with
  | nil => rfl
  | cons c w ih =>
    obtain ⟨hc, hw⟩ := List.forall_mem_cons.1 h
    have hs : c.utf8Size = 1 := by
      have := Char.isDigit_iff_toNat.1 hc
      have : '9'.toNat = 57 := rfl
      exact Char.utf8Size_eq_one_iff.2 (UInt32.le_iff_toNat_le.2 (by
        show c.toNat ≤ 127
        omega))
    rw [byteLength_cons, hs, ih hw, List.length_cons, Nat.add_comm]

theorem takeDigits?_eq {least most : Nat} (hm : most ≤ 9) (text : List Char) :
    takeDigits? least most text = some ((takeDigits least most text).map (inBytes text)) := by
  obtain ⟨digits, rest, rfl, hw, hd, hl⟩ := exists_digits_append most text
  have hb := byteLength_of_isDigit hd.2
  have hv : digitsValue digits < UInt32.size :=
    (digitsValue_lt hd).trans
      (lt_of_le_of_lt (Nat.pow_le_pow_right (by decide) (hl.trans hm)) (by decide))
  have hs : Span.slice? ⟨0, digits.length⟩ (digits ++ rest) = some digits :=
    hb ▸ Span.slice?_front_eq_some_iff.2 ⟨rest, rfl⟩
  unfold takeDigits? takeDigits
  rw [countDigits_eq, hw]
  by_cases hlen : digits.length < least
  · simp [hlen]
  · simp [hlen, hs, wordOf?_eq hv, inBytes, hb]

theorem findMonthName?_eq (l : NameLength) (text : List Char) :
    findMonthName? l text = (takeMonthName l text).map (inBytes text) := by
  unfold findMonthName? takeMonthName
  rw [List.map_findSome?]
  congr 1
  funext ⟨name, month⟩
  simp only [Function.comp_apply, Option.map_map]
  cases h : dropWord? sameLetter name text with
  | some rest =>
    obtain ⟨w, hw, rfl⟩ := dropWord?_eq_some_iff.1 h
    rw [filter_sameBytes_eq_some_iff.2 ⟨hw, rest, rfl⟩]
    simp [inBytes, byteLength_eq_of_map_toLower_eq hw]
  | none =>
    have hn : (Span.slice? ⟨0, byteLength name⟩ text).filter (sameBytes · name) = none := by
      refine Option.eq_none_iff_forall_ne_some.2 fun w hs => ?_
      obtain ⟨hw, rest, rfl⟩ := filter_sameBytes_eq_some_iff.1 hs
      rw [show dropWord? sameLetter name (w ++ rest) = some rest from
        dropWord?_eq_some_iff.2 ⟨w, hw, rfl⟩] at h
      cases h
    rw [hn]
    rfl

theorem Slot.takeBytes?_eq (s : Slot) (text : List Char) :
    s.takeBytes? text = some ((s.take text).map (inBytes text)) := by
  cases s with
  | year | shortYear | paddedMonth | paddedDay | month | day =>
    exact takeDigits?_eq (by decide) text
  | shortMonthName | monthName => exact congrArg some (findMonthName?_eq _ text)

theorem monthNumber_lt (l : NameLength) (w : List Char) : monthNumber l w < 10 ^ 4 := by
  have h : (monthNames l).findIdx (fun name => w.map Char.toLower == name.map Char.toLower) ≤
      (monthNames l).length := List.findIdx_le_length
  rw [length_monthNames] at h
  unfold monthNumber
  omega

/-- No slot reads a number of more than four digits. -/
theorem Slot.value_lt {s : Slot} {w : List Char} (h : s.Fits w) : s.value w < 10 ^ 4 := by
  cases s with
  | year => exact digitsValue_lt h
  | shortYear | paddedMonth | paddedDay => exact (digitsValue_lt h).trans (by decide)
  | month | day =>
    exact h.elim (fun h => (digitsValue_lt h).trans (by decide)) fun h =>
      (digitsValue_lt h).trans (by decide)
  | shortMonthName | monthName => exact monthNumber_lt _ w

/-! ## The walk -/

namespace Template

theorem Fields.setWord?_eq {n : Nat} (h : n < 10 ^ 4) (f : Fields) (s : Slot) :
    f.setWord? n.toUInt32 s = some (f.set n s) := by
  have hn : n.toUInt32.toNat = n := UInt32.toNat_ofNat_of_lt' (h.trans (by decide))
  unfold setWord?
  rw [hn, if_pos (by omega)]

theorem walkBytes?_eq (t : Template) (f : Fields) (text : List Char) :
    walkBytes? t f text = some (walk t f text) := by
  fun_induction walk t f text with
  | case1 => rfl
  | case2 => rfl
  | case3 => rfl
  | case4 t f c rest ih =>
    have h := Span.slice?_behind [c] rest
    rw [byteLength_cons c [], byteLength_nil, Nat.add_zero, List.singleton_append] at h
    rw [walkBytes?, if_pos rfl, h]
    exact ih
  | case5 e t f c rest hne => rw [walkBytes?, if_neg hne]
  | case6 s t f c rest n rest' hs ih =>
    obtain ⟨w, hw, rfl, ht⟩ := Slot.fits_of_take hs
    have hl : byteLength (w ++ rest') - byteLength rest' = byteLength w := by
      rw [byteLength_append, Nat.add_sub_cancel]
    rw [walkBytes?, Slot.takeBytes?_eq, hs, ht]
    simp only [Option.bind_eq_bind, Option.bind_some, Option.map_some, inBytes, hl,
      Span.slice?_behind, Fields.setWord?_eq (Slot.value_lt hw), ih]
  | case7 s t f c rest hs =>
    rw [walkBytes?, Slot.takeBytes?_eq, hs]
    rfl

/-! ## Dates -/

/-- Reading by bytes is always defined, and is reading by characters. -/
theorem parseBytes?_eq (template text : List Char) :
    parseBytes? template text = some ((ofText template).parse text) := by
  unfold parseBytes? parse
  rw [itemsByBytes_eq]
  simp only [Option.bind_eq_bind, Option.bind_some, walkBytes?_eq]
  cases walk (ofText template) {} text <;> rfl

end Template

end Redate
