/-
Captured texts are joined to one text, each closed by a delimiter, and this is read as a whole. No
text can reach into another one, whatever it holds: a slot takes no delimiter, so that there are as
many of them as fields only if none stands inside a text, and then each text is read on its own.
-/
import Redate.Converter
import Redate.Proofs.Template.Failures

namespace Redate
namespace Template

/-! ## Counting delimiters -/

theorem delimiter_notMem_of_fits {s : Slot} {w : List Char} (h : s.Fits w) : delimiter ∉ w := by
  have hd : ∀ {n}, Digits n w → delimiter ∉ w := fun h hm => absurd (h.2 _ hm) (by decide)
  have hn : ∀ {l}, NamesMonth l w → delimiter ∉ w := fun h hm =>
    absurd (h.monthWord.isAlpha_or_eq _ hm) (by decide)
  cases s with
  | year | shortYear | paddedMonth | paddedDay => exact hd h
  | month | day => exact h.elim hd hd
  | shortMonthName | monthName => exact hn h

/-- Only the literals take delimiters from a text. -/
theorem count_delimiter_of_fits {t : Template} {pieces : List (List Char)}
    (h : List.Forall₂ Item.Fits t pieces) :
    pieces.flatten.count delimiter = t.count (.literal delimiter) := by
  induction h with
  | nil => rfl
  | @cons i w t pieces hi _ ih =>
    rw [List.flatten_cons, List.count_append, ih, List.count_cons, Nat.add_comm]
    congr 1
    cases i with
    | literal c =>
      obtain rfl : w = [c] := hi
      rw [List.count_singleton]
      congr 1
      simp
    | slot s => simpa using List.count_eq_zero.2 (delimiter_notMem_of_fits hi)

/-- The texts of fields, each closed by the delimiter. -/
def joined (fields : List (Slot × List Char)) : List Char :=
  fields.flatMap fun p => p.2 ++ [delimiter]

theorem count_delimiter_joined (fields : List (Slot × List Char)) :
    (joined fields).count delimiter =
      fields.length + (fields.flatMap fun p => p.2).count delimiter := by
  unfold joined
  induction fields with
  | nil => rfl
  | cons p fields ih =>
    simp only [List.flatMap_cons, List.count_append, List.length_cons, ih,
      List.count_singleton_self]
    omega

theorem count_delimiter_ofSlots (slots : List Slot) :
    (ofSlots slots).count (.literal delimiter) = slots.length := by
  unfold ofSlots
  induction slots with
  | nil => rfl
  | cons s slots ih =>
    rw [List.flatMap_cons, List.count_append, ih, List.length_cons, Nat.add_comm]
    rfl

/-- The template ends with a delimiter, so what is left of it has one. -/
theorem delimiter_mem_of_suffix {slots : List Slot} {t : Template} (h : t <:+ ofSlots slots)
    (ht : t ≠ []) : .literal delimiter ∈ t := by
  obtain ⟨front, h⟩ := h
  rcases List.eq_nil_or_concat' slots with rfl | ⟨init, s, rfl⟩
  · exact absurd (List.append_eq_nil_iff.1 h).2 ht
  · rcases List.eq_nil_or_concat' t with rfl | ⟨more, i, rfl⟩
    · exact absurd rfl ht
    · have h' : (front ++ more) ++ [i] = (ofSlots init ++ [.slot s]) ++ [.literal delimiter] := by
        rw [List.append_assoc, h, ofSlots_append, List.append_assoc]
        rfl
      obtain ⟨-, hi⟩ := List.append_inj' h' rfl
      rw [List.singleton_inj.1 hi]
      exact List.mem_append_right _ (List.mem_singleton_self _)

/-! ## Fields are read one by one -/

theorem fits_of_joined {fields : List (Slot × List Char)} {pieces : List (List Char)}
    (h : List.Forall₂ Item.Fits (ofSlots (fields.map (·.1))) pieces)
    (hj : pieces.flatten = joined fields) (hd : ∀ p ∈ fields, delimiter ∉ p.2) :
    ∀ p ∈ fields, p.1.Fits p.2 := by
  induction fields generalizing pieces with
  | nil => simp
  | cons p fields ih =>
    obtain ⟨hp, hd⟩ := List.forall_mem_cons.1 hd
    cases h with
    | @cons _ w _ _ hw h =>
      cases h with
      | @cons _ c _ pieces hc h =>
        obtain rfl : c = [delimiter] := hc
        have hw : p.1.Fits w := hw
        -- the first delimiter ends the first piece and the first text alike
        have hj : w ++ delimiter :: pieces.flatten = p.2 ++ delimiter :: joined fields := by
          simpa [joined] using hj
        have hfront := congrArg (List.takeWhile (· != delimiter)) hj
        rw [takeWhile_delimiter (delimiter_notMem_of_fits hw), takeWhile_delimiter hp] at hfront
        obtain rfl : w = p.2 := by simpa using hfront
        obtain ⟨-, hj⟩ := List.cons.inj (List.append_cancel_left hj)
        exact List.forall_mem_cons.2 ⟨hw, ih h hj hd⟩

theorem fits_of_parseFields {fields : List (Slot × List Char)} {d : Date}
    (h : parseFields fields = .ok d) : ∀ p ∈ fields, p.1.Fits p.2 := by
  obtain ⟨pieces, hp, hj, -⟩ := Spells.of_parse h
  refine fits_of_joined hp hj fun p hm hd => ?_
  -- a delimiter inside a text would be one too many
  have h₁ : (joined fields).count delimiter = fields.length := by
    rw [joined, ← hj, count_delimiter_of_fits hp, count_delimiter_ofSlots, List.length_map]
  have h₂ := count_delimiter_joined fields
  have h₃ : 0 < (fields.flatMap fun p => p.2).count delimiter :=
    List.count_pos_iff.2 (List.mem_flatMap.2 ⟨p, hm, hd⟩)
  omega

theorem parseFields_eq_ok_iff {fields : List (Slot × List Char)} {d : Date} :
    parseFields fields = .ok d ↔ (∀ p ∈ fields, p.1.Fits p.2) ∧
      let f := Fields.lastOf fields {}
      d.year = f.year ∧ d.month = f.month ∧ d.day = f.day := by
  constructor
  · intro h
    have hf := fits_of_parseFields h
    rw [parseFields_eq_toDate hf] at h
    exact ⟨hf, Fields.toDate_eq_ok_iff.1 h⟩
  · rintro ⟨hf, hd⟩
    rw [parseFields_eq_toDate hf]
    exact Fields.toDate_eq_ok_iff.2 hd

/-- The text does not end before the template: the delimiters that are left are enough for it. -/
theorem parseFields_ne_endsEarly (fields : List (Slot × List Char)) :
    parseFields fields ≠ .error .endsEarly := by
  intro h
  obtain ⟨p, -, hs⟩ := Point.exists_isFurthest (ofSlots (fields.map (·.1))) (joined fields)
  obtain ⟨ht, hr⟩ := (hs.parse_eq_error_iff .endsEarly).1 h
  have h₁ := count_delimiter_of_fits (fits_of_takes p.takes)
  have h₂ := congrArg (List.count delimiter) p.text_eq
  have h₃ := congrArg (List.count (.literal delimiter)) p.items_eq
  have h₄ := List.count_pos_iff.2 (delimiter_mem_of_suffix ⟨p.done, p.items_eq⟩ ht)
  rw [hr, List.append_nil, count_delimiter_joined] at h₂
  rw [List.count_append, count_delimiter_ofSlots, List.length_map] at h₃
  omega

end Template

/-! ## Matches with any groups -/

open Template (Fields)

/-- The texts that the groups cut out for slots, where both are there. -/
def slotTexts (pairs : List (Option Slot × Option Span)) (text : List Char) :
    List (Slot × List Char) :=
  pairs.filterMap fun
    | (some s, some span) => some (s, span.slice text)
    | _ => none

section Pairs

variable {slots : List (Option Slot)} {groups : List (Option Span)} {text : List Char}

theorem fits_capturedFields_iff :
    (∀ p ∈ capturedFields slots groups text, p.1.Fits p.2) ↔
      ∀ s g, (some s, g) ∈ slots.zip groups → ∃ span, g = some span ∧ s.Fits (span.slice text) := by
  unfold capturedFields
  constructor
  · intro h s g hp
    have hf : s.Fits ((g.map (·.slice text)).getD []) :=
      h (s, _) (List.mem_filterMap.2 ⟨_, hp, rfl⟩)
    cases g with
    | none => exact absurd rfl hf.ne_nil
    | some span => exact ⟨span, rfl, hf⟩
  · intro h p hp
    obtain ⟨⟨s?, g⟩, hm, hp⟩ := List.mem_filterMap.1 hp
    obtain ⟨s, rfl, rfl⟩ := Option.map_eq_some_iff.1 hp
    obtain ⟨span, rfl, hf⟩ := h s g hm
    exact hf

theorem capturedFields_eq_slotTexts
    (h : ∀ s g, (some s, g) ∈ slots.zip groups → ∃ span, g = some span ∧ s.Fits (span.slice text)) :
    capturedFields slots groups text = slotTexts (slots.zip groups) text := by
  unfold capturedFields slotTexts
  refine List.filterMap_congr ?_
  rintro ⟨s?, g⟩ hp
  cases s? with
  | none => rfl
  | some s =>
    obtain ⟨span, rfl, -⟩ := h s g hp
    rfl

end Pairs

/-- The date of a match with any groups. Slots and groups are paired as far as both go, and the
match is a date exactly when each slot has a group whose text alone, and as a whole, is of its
shape, and the last numbers of each kind name the date. A slot without a group, or with a text that
is empty or holds a delimiter, is an error, and no match is refused because its text ends early. -/
theorem parseMatch_eq_ok_iff (c : Converter) (text : List Char) (m : Match) :
    let pairs := c.input.slots.zip m.groups
    let f := Fields.lastOf (slotTexts pairs text) {}
    (∀ d, c.parseMatch text m = .ok d ↔
      (∀ s g, (some s, g) ∈ pairs → ∃ span, g = some span ∧ s.Fits (span.slice text)) ∧
        d.year = f.year ∧ d.month = f.month ∧ d.day = f.day) ∧
    (∀ s g, (some s, g) ∈ pairs →
      (∀ span ∈ g, span.slice text = [] ∨ Template.delimiter ∈ span.slice text) →
      ∃ e, c.parseMatch text m = .error e) ∧
    c.parseMatch text m ≠ .error .endsEarly := by
  intro pairs f
  have hok : ∀ d, c.parseMatch text m = .ok d ↔
      (∀ s g, (some s, g) ∈ pairs → ∃ span, g = some span ∧ s.Fits (span.slice text)) ∧
        d.year = f.year ∧ d.month = f.month ∧ d.day = f.day := by
    intro d
    rw [Converter.parseMatch, Template.parseFields_eq_ok_iff, fits_capturedFields_iff]
    refine and_congr_right fun h => ?_
    rw [capturedFields_eq_slotTexts h]
  refine ⟨hok, fun s g hp hg => ?_, Template.parseFields_ne_endsEarly _⟩
  cases h : c.parseMatch text m with
  | error e => exact ⟨e, rfl⟩
  | ok d =>
    obtain ⟨span, rfl, hf⟩ := ((hok d).1 h).1 s g hp
    rcases hg span rfl with hn | hd
    · exact absurd hn hf.ne_nil
    · exact absurd hd (Template.delimiter_notMem_of_fits hf)

/-- One text can serve two slots and a group too many does no harm, but a delimiter does. -/
theorem parseMatch_eq_ok_iff_december :
    let c : Converter := ⟨⟨"d2oom1y2", by decide⟩, .compile "y4"⟩
    let text := ['1', '2', ':', '9', '9']
    let m : Match := ⟨⟨0, 5⟩, [some ⟨0, 2⟩, none, some ⟨0, 2⟩, some ⟨3, 5⟩, some ⟨5, 5⟩]⟩
    let m' : Match := ⟨⟨0, 5⟩, [some ⟨0, 2⟩, none, some ⟨1, 3⟩, some ⟨3, 5⟩]⟩
    c.parseMatch text m = .ok ⟨1999, 12, 12, by decide⟩ ∧
      (some .month, some ⟨1, 3⟩) ∈ c.input.slots.zip m'.groups ∧
      ∃ e, c.parseMatch text m' = .error e := by
  intro c text m m'
  have hm' : (some .month, some ⟨1, 3⟩) ∈ c.input.slots.zip m'.groups := by decide
  refine ⟨((parseMatch_eq_ok_iff c text m).1 _).2 ⟨?_, by decide⟩, hm', ?_⟩
  · have hpairs : c.input.slots.zip m.groups = [(some .paddedDay, some ⟨0, 2⟩), (none, none),
        (some .month, some ⟨0, 2⟩), (some .shortYear, some ⟨3, 5⟩)] := by decide
    have htwelve : Digits 2 ['1', '2'] := ⟨rfl, by simp⟩
    have hyear : Digits 2 ['9', '9'] := ⟨rfl, by simp⟩
    intro s g hp
    rw [hpairs] at hp
    simp only [List.mem_cons, Prod.mk.injEq, Option.some.injEq, List.not_mem_nil, or_false,
      reduceCtorEq, false_and, false_or] at hp
    rcases hp with ⟨rfl, rfl⟩ | ⟨rfl, rfl⟩ | ⟨rfl, rfl⟩
    · exact ⟨_, rfl, htwelve⟩
    · exact ⟨_, rfl, .inr htwelve⟩
    · exact ⟨_, rfl, hyear⟩
  · exact (parseMatch_eq_ok_iff c text m').2.1 .month (some ⟨1, 3⟩) hm' (by decide)

end Redate
