/-
The date of a match. What a match captures is read field by field: of each kind the last counts,
and what is not captured has its default. A match that was found is a date exactly when these
numbers name a day, and the only texts found that cannot be read are month names with a long s.
-/
import Redate.Proofs.Conversion.Splice
import Redate.Proofs.Template.Grammar

namespace Redate

open Template (Fields parseFields)

/-! ## The numbers in captured texts -/

/-- The numbers that captured texts name in the slots of their tags: of each kind the last one, or
else its default. -/
def fieldsOf (captures : List (Tag × List Char)) : Fields :=
  .lastOf (captures.filterMap fieldOf) {}

/-- A month name with a long s. -/
def LongS (p : Tag × List Char) : Prop :=
  (p.1 = .monthName ∨ p.1 = .shortMonthName) ∧ 'ſ' ∈ p.2

instance (p : Tag × List Char) : Decidable (LongS p) :=
  inferInstanceAs (Decidable (_ ∧ _))

/-! ## Captured texts have their shapes -/

/-- A captured text of the tag's shape is of its slot's shape, but for a long s. -/
theorem Tag.Fits.fits_slot {t : Tag} {s : Slot} {w : List Char} (h : t.Fits (some w))
    (hs : t.slot? = some s) (hl : ¬ LongS (t, w)) : s.Fits w := by
  cases t <;> cases hs
  case day | month =>
    exact h.elim .inr fun h => .inl h.digits
  case paddedDay | paddedMonth | shortYear | year => exact h
  case monthName | shortMonthName =>
    obtain ⟨name, hn, hw⟩ := h
    have hl : 'ſ' ∉ w := by simpa [LongS] using hl
    exact ⟨name, hn, map_toLower_eq_of_standsFor hl hw⟩

theorem take_of_longS {t : Tag} {s : Slot} {w : List Char} (h : t.Fits (some w))
    (hs : t.slot? = some s) (hl : LongS (t, w)) :
    Template.delimiter ∉ w ∧ ∀ rest, s.take (w ++ rest) = none := by
  obtain ⟨ht | ht, hl⟩ := hl <;> cases ht <;> cases hs
  all_goals
    have h : MonthWord _ w := h
    refine ⟨fun hd => ?_, takeMonthName_of_mem_longS h hl⟩
    exact absurd (h.isAlpha_or_eq _ hd) (by decide)

theorem fits_of_mem_tagTexts {tokens : List Token} {text : List Char} {d : Decomposition}
    (hd : IsDecomposition tokens text d) {p : Tag × List Char} (hp : p ∈ tagTexts d.parts)
    {s : Slot} (hs : p.1.slot? = some s) : p.1.Fits (some p.2) := by
  obtain ⟨part, hm, hp⟩ := List.mem_filterMap.1 hp
  obtain ⟨t, ht, rfl⟩ := Option.map_eq_some_iff.1 hp
  have hf := hd.fits part hm
  obtain ⟨token, taken⟩ := part
  cases token with
  | literal c => cases ht
  | tag t' =>
    cases ht
    cases taken with
    | some w => exact hf
    | none => cases t <;> first | exact hf.elim | cases hs

/-! ## The date of a match -/

section Captures

variable {c : Converter} {text : List Char} {m : Match}

/-- The captures of a match that was found: one for each tag of the format, of its shape. -/
theorem captures_of_mem_find (hm : m ∈ c.find text) :
    (c.captures text m).map Prod.fst = c.input.tags ∧
      ∀ p ∈ c.captures text m, ∀ s, p.1.slot? = some s → p.1.Fits (some p.2) := by
  obtain ⟨before, d, rfl, -, hf, rfl⟩ := place_of_mem_findMatches hm
  have hd := hf.isDecomposition
  rw [captures_of_place hd.tokens_eq]
  refine ⟨?_, fun p hp s hs => fits_of_mem_tagTexts hd hp hs⟩
  rw [InputFormat.tags, ← hd.tokens_eq, map_fst_tagTexts]

theorem fits_of_mem_fields {captures : List (Tag × List Char)}
    (h : ∀ p ∈ captures, ∀ s, p.1.slot? = some s → p.1.Fits (some p.2))
    (hl : ∀ p ∈ captures, ¬ LongS p) : ∀ q ∈ captures.filterMap fieldOf, q.1.Fits q.2 := by
  intro q hq
  obtain ⟨p, hp, hq⟩ := List.mem_filterMap.1 hq
  obtain ⟨s, hs, rfl⟩ := Option.map_eq_some_iff.1 hq
  exact (h p hp s hs).fits_slot hs (hl p hp)

/-- Without a long s the numbers of the captures decide. -/
theorem parseMatch_without_longS (hm : m ∈ c.find text)
    (hl : ∀ p ∈ c.captures text m, ¬ LongS p) :
    let f := fieldsOf (c.captures text m)
    (NamesDay f → ∃ d : Date, (d.year = f.year ∧ d.month = f.month ∧ d.day = f.day) ∧
      c.parseMatch text m = .ok d) ∧
    (¬ NamesDay f → c.parseMatch text m = .error (.noSuchDay f)) := by
  intro f
  obtain ⟨-, h⟩ := captures_of_mem_find hm
  have hf := fits_of_mem_fields h hl
  rw [Converter.parseMatch_eq, Template.parseFields_eq_toDate hf]
  exact toDate_of_namesDay (Template.year_bounds_of_fits hf)

/-- The first month name with a long s is reported. -/
theorem parseMatch_of_longS (hm : m ∈ c.find text) {good more : List (Tag × List Char)}
    {p : Tag × List Char} (hc : c.captures text m = good ++ p :: more)
    (hg : ∀ q ∈ good, ¬ LongS q) (hp : LongS p) :
    ∃ s, p.1.slot? = some s ∧ c.parseMatch text m = .error (.badValue s p.2) := by
  obtain ⟨-, h⟩ := captures_of_mem_find hm
  rw [hc] at h
  obtain ⟨s, hs⟩ : ∃ s, p.1.slot? = some s := by
    rcases hp.1 with ht | ht <;> rw [ht] <;> exact ⟨_, rfl⟩
  obtain ⟨hd, hn⟩ := take_of_longS (h p (by simp) s hs) hs hp
  refine ⟨s, hs, ?_⟩
  rw [Converter.parseMatch_eq, hc, List.filterMap_append, List.filterMap_cons,
    show fieldOf p = some (s, p.2) by rw [fieldOf, hs]; rfl]
  exact Template.parseFields_of_not_take
    (fits_of_mem_fields (fun q hq => h q (by simp [hq])) hg) hd hn

theorem first_longS (captures : List (Tag × List Char)) :
    (∀ p ∈ captures, ¬ LongS p) ∨
      ∃ good p more, captures = good ++ p :: more ∧ (∀ q ∈ good, ¬ LongS q) ∧ LongS p := by
  cases h : captures.find? (fun p => decide (LongS p)) with
  | none => exact .inl (by simpa using List.find?_eq_none.1 h)
  | some p =>
    obtain ⟨hp, good, more, rfl, hg⟩ := List.find?_eq_some_iff_append.1 h
    exact .inr ⟨good, p, more, rfl, by simpa using hg, by simpa using hp⟩

end Captures

/-- The date of a match that was found. It captures a text for every tag of the format. Unless a
month name among these has a long s, the match is the date that their numbers name, or no date
because they name no day; otherwise the first such name is reported. So no conversion skips a
match because its text would end early, differ, or be left over. -/
theorem parseMatch_of_mem_find (c : Converter) (text : List Char) :
    (∀ m ∈ c.find text,
      (c.captures text m).map Prod.fst = c.input.tags ∧
      ((∀ p ∈ c.captures text m, ¬ LongS p) →
        let f := fieldsOf (c.captures text m)
        (NamesDay f → ∃ d : Date, (d.year = f.year ∧ d.month = f.month ∧ d.day = f.day) ∧
          c.parseMatch text m = .ok d) ∧
        (¬ NamesDay f → c.parseMatch text m = .error (.noSuchDay f))) ∧
      ∀ good p more, c.captures text m = good ++ p :: more → (∀ q ∈ good, ¬ LongS q) →
        LongS p → ∃ s, p.1.slot? = some s ∧ c.parseMatch text m = .error (.badValue s p.2)) ∧
    ∀ s ∈ (c.report text).skipped,
      s.reason ≠ .endsEarly ∧ (∀ e f, s.reason ≠ .differs e f) ∧ ∀ w, s.reason ≠ .leftOver w := by
  refine ⟨fun m hm => ⟨(captures_of_mem_find hm).1, parseMatch_without_longS hm,
    fun good p more => parseMatch_of_longS hm⟩, fun s hs => ?_⟩
  rw [report_skipped_eq] at hs
  obtain ⟨m, hm, hs⟩ := List.mem_filterMap.1 hs
  unfold Converter.skipped? at hs
  -- a match is skipped as no day or for a long s, and there is no third reason
  rcases first_longS (c.captures text m) with hl | ⟨good, p, more, hc, hg, hp⟩
  · obtain ⟨h₁, h₂⟩ := parseMatch_without_longS hm hl
    by_cases hn : NamesDay (fieldsOf (c.captures text m))
    · obtain ⟨d, -, hd⟩ := h₁ hn
      rw [hd] at hs; cases hs
    · rw [h₂ hn] at hs; cases hs; simp
  · obtain ⟨slot, -, he⟩ := parseMatch_of_longS hm hc hg hp
    rw [he] at hs; cases hs; simp

/-- A leap day of a century year is a date, and September with a long s is reported. -/
theorem parseMatch_of_mem_find_february :
    let c : Converter := ⟨⟨"d2msy2", by decide⟩, .compile "y4"⟩
    let text := ['2', '9', 'f', 'e', 'b', '0', '0']
    let text' := ['0', '1', 'ſ', 'e', 'p', '2', '4']
    let m : Match := ⟨⟨0, 7⟩, [some ⟨0, 2⟩, some ⟨2, 5⟩, some ⟨5, 7⟩]⟩
    let m' : Match := ⟨⟨0, 8⟩, [some ⟨0, 2⟩, some ⟨2, 6⟩, some ⟨6, 8⟩]⟩
    (m ∈ c.find text ∧
      ∃ d : Date, (d.year = 2000 ∧ d.month = 2 ∧ d.day = 29) ∧ c.parseMatch text m = .ok d) ∧
    m' ∈ c.find text' ∧ ∃ s, Tag.shortMonthName.slot? = some s ∧
      c.parseMatch text' m' = .error (.badValue s ['ſ', 'e', 'p']) := by
  intro c text text' m m'
  have h : firstDecomposition c.input.tokens text =
      some ⟨[⟨.tag .paddedDay, some ['2', '9']⟩, ⟨.tag .shortMonthName, some ['f', 'e', 'b']⟩,
        ⟨.tag .shortYear, some ['0', '0']⟩], []⟩ := by
    rw [firstDecomposition_eq]; decide
  have h' : firstDecomposition c.input.tokens text' =
      some ⟨[⟨.tag .paddedDay, some ['0', '1']⟩, ⟨.tag .shortMonthName, some ['ſ', 'e', 'p']⟩,
        ⟨.tag .shortYear, some ['2', '4']⟩], []⟩ := by
    rw [firstDecomposition_eq]; decide
  have hm : m ∈ c.find text := by
    rw [Converter.find, findMatches, scan_of_text_ne_nil h (by decide), scan_nil]
    decide
  have hm' : m' ∈ c.find text' := by
    rw [Converter.find, findMatches, scan_of_text_ne_nil h' (by decide), scan_nil]
    decide
  have hf : fieldsOf (c.captures text m) = ⟨2000, 2, 29⟩ := by decide
  refine ⟨⟨hm, ?_⟩, hm', ?_⟩
  · have hd := (((parseMatch_of_mem_find c text).1 m hm).2.1 (by decide)).1 (by decide)
    rwa [hf] at hd
  · exact ((parseMatch_of_mem_find c text').1 m' hm').2.2 [(.paddedDay, ['0', '1'])]
      (.shortMonthName, ['ſ', 'e', 'p']) [(.shortYear, ['2', '4'])] (by decide) (by decide)
      (by decide)

end Redate
