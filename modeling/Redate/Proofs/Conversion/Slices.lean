/-
Conversion by bytes. The matches of a text are gone through from left to right; what stands between
them, the matches themselves and their groups are all cut out of the text by their bytes, and where
one of these cuts splits a character, runs backwards or leaves the text, nothing comes of it. The
main statement says that every cut is defined, and that the conversion is that of the characters.
-/
import Redate.Proofs.Conversion.Pieces
import Redate.Proofs.Template.Slices

namespace Redate

open Template (ParseError delimiter parseFields)

/-! ## Groups -/

theorem length_groupSpans (start : Nat) (parts : List Part) :
    (groupSpans start parts).length = (parts.filterMap (·.token.tag?)).length := by
  induction parts generalizing start with
  | nil => rfl
  | cons p parts ih =>
    unfold groupSpans
    cases ht : p.token with
    | literal c => simpa [ht, Token.tag?] using ih _
    | tag t => simpa [ht, Token.tag?] using ih _

/-- The group of a tag is where its part is, if the part took anything. -/
theorem exists_part_of_mem_zip {before : List Char} {parts : List Part} {t : Tag}
    {g : Option Span}
    (h : (t, g) ∈ (parts.filterMap (·.token.tag?)).zip (groupSpans (byteLength before) parts)) :
    ∃ (pre : List Part) (p : Part) (post : List Part), parts = pre ++ p :: post ∧ p.token = .tag t ∧
      let start := byteLength (before ++ pre.flatMap Part.text)
      g = p.taken.map fun _ => ⟨start, start + byteLength p.text⟩ := by
  induction parts generalizing before with
  | nil => cases h
  | cons p parts ih =>
    -- the induction moves what the first part took to what stands before
    have ih := @ih (before ++ p.text)
    unfold groupSpans at h
    rw [byteLength_append] at ih
    cases ht : p.token with
    | literal c =>
      simp only [ht, List.filterMap_cons, Token.tag?] at h
      obtain ⟨pre, q, post, rfl, hq, hg⟩ := ih h
      exact ⟨p :: pre, q, post, rfl, hq, by simpa using hg⟩
    | tag u =>
      simp only [ht, List.filterMap_cons, Token.tag?, List.zip_cons_cons, List.mem_cons] at h
      rcases h with h | h
      · cases h
        exact ⟨[], p, parts, rfl, ht, by simp⟩
      · obtain ⟨pre, q, post, rfl, hq, hg⟩ := ih h
        exact ⟨p :: pre, q, post, rfl, hq, by simpa using hg⟩

theorem span_cuts_of_mem_find {c : Converter} {text : List Char} {m : Match}
    (hm : m ∈ c.find text) : m.span.Cuts text := by
  obtain ⟨before, d, ht, -, -, rfl⟩ := place_of_mem_findMatches hm
  exact Span.cuts_iff.2 ⟨before, d.text, d.rest, ht, rfl⟩

/-- A match has a group for each tag; only an optional ordinal may be without a text, and every
other group can be cut out of the text within the match. -/
theorem groups_of_mem_find {c : Converter} {text : List Char} {m : Match} (hm : m ∈ c.find text) :
    m.groups.length = c.input.tags.length ∧
      ∀ t g, (t, g) ∈ c.input.tags.zip m.groups →
        (g = none → t = .optionalOrdinal) ∧
        ∀ span, g = some span →
          span.Cuts text ∧ m.span.start ≤ span.start ∧ span.stop ≤ m.span.stop := by
  obtain ⟨before, d, ht, -, hf, rfl⟩ := place_of_mem_findMatches hm
  have hd := hf.isDecomposition
  have htags : c.input.tags = d.parts.filterMap (·.token.tag?) := by
    rw [InputFormat.tags, ← hd.tokens_eq, List.filterMap_map]
    rfl
  rw [htags]
  refine ⟨length_groupSpans _ _, fun t g hg => ?_⟩
  obtain ⟨pre, p, post, hp, htok, rfl⟩ := exists_part_of_mem_zip hg
  have hfit := hd.fits p (by rw [hp]; simp)
  rw [htok] at hfit
  have hdt : d.text = pre.flatMap Part.text ++ p.text ++ post.flatMap Part.text := by
    rw [Decomposition.text, hp, List.flatMap_append, List.flatMap_cons, List.append_assoc]
  constructor
  · intro hn
    have hn : p.taken = none := by simpa using hn
    rw [hn] at hfit
    cases t <;> first | rfl | exact hfit.elim
  · intro span hs
    obtain ⟨-, -, rfl⟩ := Option.map_eq_some_iff.1 hs
    refine ⟨Span.cuts_iff.2 ⟨before ++ pre.flatMap Part.text, p.text,
      post.flatMap Part.text ++ d.rest, ?_, rfl⟩, ?_, ?_⟩
    · rw [ht, hdt]
      simp only [List.append_assoc]
    · show byteLength before ≤ _
      simp
    · show _ ≤ byteLength before + byteLength d.text
      rw [hdt]
      simp only [byteLength_append]
      omega

theorem cuts_of_mem_groups {c : Converter} {text : List Char} {m : Match} (hm : m ∈ c.find text)
    {span : Span} (h : some span ∈ m.groups) :
    span.Cuts text ∧ m.span.start ≤ span.start ∧ span.stop ≤ m.span.stop := by
  obtain ⟨hl, hg⟩ := groups_of_mem_find hm
  rw [← List.map_snd_zip hl.le] at h
  obtain ⟨⟨t, g⟩, hp, hs⟩ := List.mem_map.1 h
  exact (hg t g hp).2 span hs

/-! ## Matches -/

theorem fieldsByBytes?_eq {slots : List (Option Slot)} {groups : List (Option Span)}
    {text : List Char} (h : ∀ g, some g ∈ groups → g.Cuts text) :
    fieldsByBytes? text (slots.zip groups) = some (capturedFields slots groups text) := by
  have h : ∀ s? g, (s?, some g) ∈ slots.zip groups → g.Cuts text :=
    fun s? g hp => h g (List.of_mem_zip hp).2
  unfold capturedFields
  generalize slots.zip groups = pairs at h
  fun_induction fieldsByBytes? text pairs with
  | case1 => rfl
  | case2 g pairs ih => exact ih fun s? g hp => h s? g (List.mem_cons_of_mem _ hp)
  | case3 s g pairs ih =>
    rw [ih fun s? g hp => h s? g (List.mem_cons_of_mem _ hp)]
    cases g with
    | none => rfl
    | some span =>
      simp only [Option.elim_some, (h _ span List.mem_cons_self).slice?_eq]
      rfl

theorem Template.ofText_spellings (slots : List Slot) :
    ofText (slots.flatMap fun s => s.spelling ++ [delimiter]) = ofSlots slots := by
  induction slots with
  | nil => rfl
  | cons s slots ih =>
    rw [List.flatMap_cons, List.append_assoc, ofText_spelling_append]
    exact congrArg (.slot s :: .literal delimiter :: ·) ih

theorem parseMatchBytes?_eq {c : Converter} {text : List Char} {m : Match}
    (h : ∀ g, some g ∈ m.groups → g.Cuts text) :
    c.parseMatchBytes? text m = some (c.parseMatch text m) := by
  unfold Converter.parseMatchBytes? Converter.parseMatch Template.parseFields
  rw [fieldsByBytes?_eq h, ← Template.ofText_spellings, List.flatMap_map]
  exact Template.parseBytes?_eq _ _

/-! ## The loop -/

theorem Report.append_kept_append (r : Report) (a b : List Char) :
    r ++ kept (a ++ b) = r ++ kept a ++ kept b := by
  show (⟨r.text ++ (a ++ b), r.replaced + 0, r.skipped ++ []⟩ : Report) =
    ⟨r.text ++ a ++ b, r.replaced + 0 + 0, r.skipped ++ [] ++ []⟩
  simp

theorem reportOn_toMatch (c : Converter) (o : Occurrence) :
    c.reportOn o.toMatch o.text (parseFields o.fields) = .ofSegments c.output [.found o] := by
  unfold Report.ofSegments
  rw [List.map_singleton]
  cases h : parseFields o.fields with
  | ok d =>
    rw [Outcome.ofSegment_of_ok h, List.flatMap_singleton]
    rfl
  | error e =>
    rw [Outcome.ofSegment_of_error h, List.flatMap_singleton]
    rfl

namespace Progress

/-- The progress over the matches among some segments: the report lacks nothing of them but the
plain text behind the last match, which begins at byte `copiedTo`. -/
def Covers (p : Progress) (output : OutputFormat) (segs : List Segment) : Prop :=
  ∃ done pending, segs.flatMap Segment.text = done ++ pending ∧ p.copiedTo = byteLength done ∧
    p.report ++ .kept pending = .ofSegments output segs

theorem Covers.plain {p : Progress} {output : OutputFormat} {segs : List Segment}
    (h : p.Covers output segs) (x : Char) : p.Covers output (segs ++ [.plain x]) := by
  obtain ⟨done, pending, ht, hc, hr⟩ := h
  refine ⟨done, pending ++ [x], ?_, hc, ?_⟩
  · rw [List.flatMap_append, ht, List.append_assoc]
    rfl
  · rw [Report.append_kept_append, hr, Report.ofSegments_append, Report.ofSegments_plain]

/-- A step over an occurrence writes what stands before it, and then what becomes of it. -/
theorem Covers.found {c : Converter} {text : List Char} {pre post : List Segment} {o : Occurrence}
    {p : Progress} (h : p.Covers c.output pre)
    (hs : scan c.input.tokens 0 text = pre ++ .found o :: post) :
    ∃ p', c.step? text p o.toMatch = some p' ∧ p'.Covers c.output (pre ++ [.found o]) := by
  obtain ⟨done, pending, ht, hc, hr⟩ := h
  have hm : o.toMatch ∈ c.find text := mem_findMatches_iff.2 ⟨pre, o, post, hs, rfl⟩
  obtain ⟨hp, ho⟩ := parseMatch_toMatch hs
  obtain ⟨hstart, htext⟩ := place_of_scan_eq hs
  rw [ht, byteLength_append] at hstart
  rw [ht, List.append_assoc] at htext
  have hgap : Span.slice? ⟨p.copiedTo, o.toMatch.span.start⟩ text = some pending :=
    Span.slice?_eq_some_iff.2 ⟨done, _, htext, by rw [hc, ← hstart]; rfl⟩
  have horiginal : o.toMatch.span.slice? text = some o.text :=
    (span_cuts_of_mem_find hm).slice?_eq.trans (congrArg some ho)
  have hstep : c.step? text p o.toMatch =
      some ⟨p.report ++ .kept pending ++ c.reportOn o.toMatch o.text (parseFields o.fields),
        o.span.stop⟩ := by
    unfold Converter.step?
    rw [hgap, horiginal, parseMatchBytes?_eq fun g hg => (cuts_of_mem_groups hm hg).1, hp]
    rfl
  refine ⟨_, hstep, done ++ pending ++ o.text, [], ?_, ?_, ?_⟩
  · rw [List.flatMap_append, ht]
    simp [Segment.text]
  · show o.start + byteLength o.text = _
    rw [hstart, byteLength_append, byteLength_append]
  · rw [Report.append_kept_nil, hr, reportOn_toMatch, ← Report.ofSegments_append]

end Progress

/-- The loop comes to the end of any segments from the left. -/
theorem exists_progress {c : Converter} {text : List Char} {pre post : List Segment}
    (hs : scan c.input.tokens 0 text = pre ++ post) :
    ∃ p, c.progress? text ((occurrences pre).map Occurrence.toMatch) = some p ∧
      p.Covers c.output pre := by
  -- the loop goes from left to right, so the induction takes the last segment off
  induction pre using List.reverseRecOn generalizing post with
  | nil => exact ⟨_, rfl, [], [], rfl, rfl, rfl⟩
  | append_singleton pre seg ih =>
    rw [List.append_assoc] at hs
    obtain ⟨p, hp, hc⟩ := ih hs
    unfold Converter.progress? occurrences at hp ⊢
    rw [List.filterMap_append, List.map_append, List.foldlM_append, hp]
    cases seg with
    | plain x => exact ⟨p, rfl, hc.plain x⟩
    | found o =>
      obtain ⟨p', hp', hc'⟩ := hc.found hs
      refine ⟨p', ?_, hc'⟩
      show (c.step? text p o.toMatch).bind some = some p'
      rw [hp', Option.bind_some]

theorem reportByBytes?_eq (c : Converter) (text : List Char) :
    c.reportByBytes? text = some (c.report text) := by
  obtain ⟨p, hp, done, pending, ht, hc, hr⟩ :=
    exists_progress (List.append_nil (scan c.input.tokens 0 text)).symm
  rw [← findMatches_eq] at hp
  rw [flatMap_text_scan] at ht
  have hrest : Span.slice? ⟨p.copiedTo, byteLength text⟩ text = some pending := by
    rw [hc, ht]
    exact Span.slice?_behind done pending
  unfold Converter.reportByBytes? Converter.find
  rw [hp, Option.bind_eq_bind, Option.bind_some, hrest, report_eq_ofSegments, ← hr]
  rfl

/-- A match among the occurrences of some segments is one of the segments. -/
theorem segments_of_map_toMatch {segs : List Segment} {before behind : List Match} {m : Match}
    (h : (occurrences segs).map Occurrence.toMatch = before ++ m :: behind) :
    ∃ (pre : List Segment) (o : Occurrence) (post : List Segment), segs = pre ++ .found o :: post ∧
      (occurrences pre).map Occurrence.toMatch = before ∧ o.toMatch = m := by
  obtain ⟨os, os', ho, rfl, hm⟩ := List.map_eq_append_iff.1 h
  obtain ⟨o, os', rfl, rfl, -⟩ := List.map_eq_cons_iff.1 hm
  obtain ⟨pre, segs', rfl, rfl, hf⟩ := List.filterMap_eq_append_iff.1 ho
  obtain ⟨plain, seg, post, rfl, hp, hseg, -⟩ := List.filterMap_eq_cons_iff.1 hf
  cases seg with
  | plain x => cases hseg
  | found o =>
    cases hseg
    refine ⟨pre ++ plain, o, post, (List.append_assoc ..).symm, ?_, rfl⟩
    rw [occurrences, List.filterMap_append, List.filterMap_eq_nil_iff.2 hp, List.append_nil]

/-- When the loop comes to a match, it has not copied more than what stands before it. -/
theorem exists_progress_of_find_eq {c : Converter} {text : List Char} {before behind : List Match}
    {m : Match} (h : c.find text = before ++ m :: behind) :
    ∃ p, c.progress? text before = some p ∧ p.copiedTo ≤ m.span.start := by
  rw [Converter.find, findMatches_eq] at h
  obtain ⟨pre, o, post, hs, rfl, rfl⟩ := segments_of_map_toMatch h
  obtain ⟨p, hp, done, pending, ht, hc, -⟩ := exists_progress hs
  refine ⟨p, hp, ?_⟩
  show p.copiedTo ≤ o.start
  rw [hc, (place_of_scan_eq hs).1, ht, byteLength_append]
  exact Nat.le_add_right _ _

/-- Every cut is defined. A match has one group for each slot of the format, and only an optional
ordinal may be without a text; the match begins and ends between characters of the text, and so
does each of its groups, within the match. When the conversion by bytes comes to a match, it has
copied the text no further than to its start; it is defined for every text, and makes the same of it
as the conversion by characters. The same holds of reading any text through any template, where
numbers are kept in machine words too. -/
theorem cuts_between_characters :
    (∀ (c : Converter) (text : List Char),
      (∀ m ∈ c.find text,
        m.groups.length = c.input.slots.length ∧
        (∀ t, (t, none) ∈ c.input.tags.zip m.groups → t = .optionalOrdinal) ∧
        m.span.Cuts text ∧
        ∀ span, some span ∈ m.groups →
          span.Cuts text ∧ m.span.start ≤ span.start ∧ span.stop ≤ m.span.stop) ∧
      (∀ before m behind, c.find text = before ++ m :: behind →
        ∃ p, c.progress? text before = some p ∧ p.copiedTo ≤ m.span.start) ∧
      c.reportByBytes? text = some (c.report text)) ∧
    ∀ template text,
      Template.parseBytes? template text = some ((Template.ofText template).parse text) := by
  refine ⟨fun c text => ⟨fun m hm => ?_, fun before m behind => exists_progress_of_find_eq,
    reportByBytes?_eq c text⟩, Template.parseBytes?_eq⟩
  obtain ⟨hl, hg⟩ := groups_of_mem_find hm
  refine ⟨?_, fun t ht => (hg t none ht).1 rfl, span_cuts_of_mem_find hm,
    fun span => cuts_of_mem_groups hm⟩
  rw [hl, InputFormat.slots, List.length_map]

/-- September with a long s, which takes two bytes, behind an ordinal that is left out. -/
theorem cuts_between_characters_long_s :
    let c : Converter := ⟨⟨"d2ooms", by decide⟩, .compile "y4"⟩
    let text := ['é', '0', '1', 'ſ', 'e', 'p']
    let m : Match := ⟨⟨2, 8⟩, [some ⟨2, 4⟩, none, some ⟨4, 8⟩]⟩
    let september : Span := ⟨4, 8⟩
    (m ∈ c.find text ∧ m.groups.length = c.input.slots.length ∧
      (Tag.optionalOrdinal, none) ∈ c.input.tags.zip m.groups ∧ m.span.Cuts text ∧
      some september ∈ m.groups ∧ september.Cuts text ∧ m.span.start ≤ september.start ∧
        september.stop ≤ m.span.stop) ∧
    c.find text = [] ++ m :: [] ∧
    ∃ p, c.progress? text [] = some p ∧ p.copiedTo ≤ m.span.start := by
  intro c text m september
  have hplain : firstDecomposition c.input.tokens text = none := by
    rw [firstDecomposition_eq]; decide
  have hfirst : firstDecomposition c.input.tokens ['0', '1', 'ſ', 'e', 'p'] =
      some ⟨[⟨.tag .paddedDay, some ['0', '1']⟩, ⟨.tag .optionalOrdinal, none⟩,
        ⟨.tag .shortMonthName, some ['ſ', 'e', 'p']⟩], []⟩ := by
    rw [firstDecomposition_eq]; decide
  have hfind : c.find text = [] ++ m :: [] := by
    rw [Converter.find, findMatches,
      scan_of_not_isDecomposition (firstDecomposition_eq_none_iff.1 hplain),
      scan_of_text_ne_nil hfirst (by decide), scan_nil]
    decide
  have hm : m ∈ c.find text := by rw [hfind]; exact List.mem_cons_self
  have hseptember : some september ∈ m.groups := by decide
  have hcuts := cuts_between_characters.1 c text
  obtain ⟨hl, -, hspan, hgroups⟩ := hcuts.1 m hm
  exact ⟨⟨hm, hl, by decide, hspan, hseptember, hgroups september hseptember⟩, hfind,
    hcuts.2.1 [] m [] hfind⟩

end Redate
