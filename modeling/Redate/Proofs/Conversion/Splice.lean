/-
What a conversion writes. A text is laid out as gaps and matches in turn; its conversion keeps
the gaps and puts a replacement for each match, the date in the output format or else the match
itself. What is replaced and what is reported depends on the input format only.
-/
import Redate.Proofs.Conversion.Captures

namespace Redate

/-! ## Layouts -/

/-- A text as gaps and pieces in turn: the first gap, then each piece with the gap behind it. -/
structure Layout where
  first : List Char
  cuts : List (List Char × List Char)

namespace Layout

/-- The text that is laid out. -/
def text (l : Layout) : List Char :=
  l.first ++ l.cuts.flatMap fun cut => cut.1 ++ cut.2

/-- The pieces alone. -/
def pieces (l : Layout) : List (List Char) :=
  l.cuts.map Prod.fst

/-- The spans of pieces that stand one after the other from byte `start`. -/
def spansFrom (start : Nat) : List (List Char × List Char) → List Span
  | [] => []
  | (piece, gap) :: cuts =>
    ⟨start, start + byteLength piece⟩ ::
      spansFrom (start + byteLength piece + byteLength gap) cuts

/-- The byte spans of the pieces in the text. -/
def spans (l : Layout) : List Span :=
  spansFrom (byteLength l.first) l.cuts

/-- The same gaps with other pieces between them. -/
def fill (l : Layout) (pieces : List (List Char)) : List Char :=
  l.first ++ (List.zipWith (fun piece cut => piece ++ cut.2) pieces l.cuts).flatten

/-- The layout in which the occurrences are the pieces. -/
def ofSegments : List Segment → Layout
  | [] => ⟨[], []⟩
  | .plain c :: segs => ⟨c :: (ofSegments segs).first, (ofSegments segs).cuts⟩
  | .found o :: segs => ⟨[], (o.text, (ofSegments segs).first) :: (ofSegments segs).cuts⟩

end Layout

/-- The occurrence of a segment, if it is one. -/
def Segment.occurrence? : Segment → Option Occurrence
  | plain _ => none
  | found o => some o

/-- The occurrences among some segments. -/
def occurrences (segs : List Segment) : List Occurrence :=
  segs.filterMap Segment.occurrence?

@[simp] theorem Segment.occurrence?_found (o : Occurrence) : (found o).occurrence? = some o := rfl

@[simp] theorem occurrences_plain (c : Char) (segs : List Segment) :
    occurrences (.plain c :: segs) = occurrences segs := rfl

@[simp] theorem occurrences_found (o : Occurrence) (segs : List Segment) :
    occurrences (.found o :: segs) = o :: occurrences segs := rfl

theorem findMatches_eq (tokens : List Token) (text : List Char) :
    findMatches tokens text = (occurrences (scan tokens 0 text)).map Occurrence.toMatch := by
  rw [findMatches, occurrences, List.map_filterMap]
  congr 1
  funext seg
  cases seg <;> rfl

namespace Layout

theorem text_ofSegments (segs : List Segment) :
    (ofSegments segs).text = segs.flatMap Segment.text := by
  fun_induction ofSegments segs with
  | case1 => rfl
  | case2 c segs ih => simp [← ih, text, Segment.text]
  | case3 o segs ih => simp [← ih, text, Segment.text]

theorem text_scan (tokens : List Token) (text : List Char) :
    (ofSegments (scan tokens 0 text)).text = text := by
  rw [text_ofSegments, flatMap_text_scan]

theorem pieces_ofSegments (segs : List Segment) :
    (ofSegments segs).pieces = (occurrences segs).map Occurrence.text := by
  fun_induction ofSegments segs with
  | case1 => rfl
  | case2 c segs ih => exact ih
  | case3 o segs ih => exact congrArg (o.text :: ·) ih

theorem spans_ofSegments {tokens : List Token} {start : Nat} {text : List Char}
    {segs : List Segment} (h : scan tokens start text = segs) :
    spansFrom (start + byteLength (ofSegments segs).first) (ofSegments segs).cuts =
      (occurrences segs).map Occurrence.span := by
  induction segs generalizing start text with
  | nil => rfl
  | cons seg segs ih =>
    obtain ⟨hp, hs⟩ := scan_eq_cons h
    have ih := ih hs
    cases seg with
    | plain c =>
      simp only [Segment.text, byteLength_cons, byteLength_nil, Nat.add_zero,
        Nat.add_assoc] at ih
      simpa only [ofSegments, byteLength_cons, occurrences_plain] using ih
    | found o =>
      obtain ⟨rfl, -⟩ := hp
      exact congrArg (o.span :: ·) ih

/-- The pieces of the layout that a search makes are where the matches are. -/
theorem spans_scan (tokens : List Token) (text : List Char) :
    (ofSegments (scan tokens 0 text)).spans = (findMatches tokens text).map Match.span := by
  have h := spans_ofSegments (rfl : scan tokens 0 text = _)
  rw [Nat.zero_add] at h
  rw [findMatches_eq, List.map_map]
  exact h

/-- Filling in a piece for each occurrence is writing every segment. -/
theorem fill_ofSegments (f : Occurrence → List Char) (segs : List Segment) :
    (ofSegments segs).fill ((occurrences segs).map f) =
      segs.flatMap fun seg => (seg.occurrence?.map f).getD seg.text := by
  fun_induction ofSegments segs with
  | case1 => rfl
  | case2 c segs ih => exact congrArg (c :: ·) ih
  | case3 o segs ih =>
    rw [List.flatMap_cons, ← ih]
    simp [fill, Segment.occurrence?]

end Layout

/-! ## Reports -/

namespace Converter

/-- What is written for a match: its date in the output format, or the match itself if it is no
date. -/
def replacement (c : Converter) (text : List Char) (m : Match) : List Char :=
  match c.parseMatch text m with
  | .ok d => c.render d
  | .error _ => m.span.slice text

/-- What is reported of a match that is no date. -/
def skipped? (c : Converter) (text : List Char) (m : Match) : Option Skipped :=
  match c.parseMatch text m with
  | .ok _ => none
  | .error e => some ⟨m.span, m.span.slice text, e⟩

theorem length_skipped (c : Converter) (text : List Char) (ms : List Match) :
    ms.countP (fun m => (c.parseMatch text m).isOk) + (ms.filterMap (c.skipped? text)).length =
      ms.length := by
  rw [List.length_filterMap_eq_countP,
    List.length_eq_countP_add_countP fun m => (c.parseMatch text m).isOk]
  refine congrArg (_ + ·) (List.countP_congr fun m _ => ?_)
  unfold skipped?
  cases c.parseMatch text m <;> simp [Except.isOk, Except.toBool]

end Converter

theorem Outcome.ofSegment_of_ok {o : Occurrence} {d : Date}
    (h : Template.parseFields o.fields = .ok d) : ofSegment (.found o) = .replaced o d := by
  simp only [ofSegment, h]

theorem Outcome.ofSegment_of_error {o : Occurrence} {e : Template.ParseError}
    (h : Template.parseFields o.fields = .error e) : ofSegment (.found o) = .skipped o e := by
  simp only [ofSegment, h]

/-- The outcome of an occurrence is told by its match. -/
theorem outcome_of_found {c : Converter} {text : List Char} {o : Occurrence}
    (h : .found o ∈ scan c.input.tokens 0 text) :
    (Outcome.ofSegment (.found o)).text c.output = c.replacement text o.toMatch ∧
      (Outcome.ofSegment (.found o)).isReplaced = (c.parseMatch text o.toMatch).isOk ∧
      (Outcome.ofSegment (.found o)).skipped? = c.skipped? text o.toMatch := by
  obtain ⟨pre, post, h⟩ := List.append_of_mem h
  obtain ⟨hp, hs⟩ := parseMatch_toMatch h
  have hs : o.toMatch.span.slice text = o.text := hs
  unfold Converter.replacement Converter.skipped?
  rw [hp, hs]
  cases hf : Template.parseFields o.fields with
  | ok d =>
    rw [Outcome.ofSegment_of_ok hf]
    exact ⟨rfl, rfl, rfl⟩
  | error e =>
    rw [Outcome.ofSegment_of_error hf]
    exact ⟨rfl, rfl, rfl⟩

section Report

variable (c : Converter) (text : List Char)

theorem report_text_eq :
    (c.report text).text = (Layout.ofSegments (scan c.input.tokens 0 text)).fill
      ((c.find text).map (c.replacement text)) := by
  rw [Converter.find, findMatches_eq, List.map_map, Layout.fill_ofSegments]
  show ((scan _ 0 text).map Outcome.ofSegment).flatMap _ = _
  rw [List.flatMap_map]
  apply List.flatMap_congr
  intro seg hseg
  cases seg with
  | plain x => rfl
  | found o =>
    rw [(outcome_of_found hseg).1, Segment.occurrence?_found, Option.map_some, Option.getD_some,
      Function.comp_apply]

theorem report_replaced_eq :
    (c.report text).replaced = (c.find text).countP fun m => (c.parseMatch text m).isOk := by
  rw [Converter.find, findMatches_eq, List.countP_map, occurrences, List.countP_filterMap]
  show ((scan _ 0 text).map Outcome.ofSegment).countP _ = _
  rw [List.countP_map]
  apply List.countP_congr
  intro seg hseg
  cases seg with
  | plain x => exact Iff.rfl
  | found o =>
    rw [Function.comp_apply, (outcome_of_found hseg).2.1, Segment.occurrence?_found,
      Option.map_some, Option.getD_some, Function.comp_apply]

theorem report_skipped_eq :
    (c.report text).skipped = (c.find text).filterMap (c.skipped? text) := by
  rw [Converter.find, findMatches_eq, List.filterMap_map, occurrences, List.filterMap_filterMap]
  show ((scan _ 0 text).map Outcome.ofSegment).filterMap _ = _
  rw [List.filterMap_map]
  apply List.filterMap_congr
  intro seg hseg
  cases seg with
  | plain x => rfl
  | found o =>
    rw [Function.comp_apply, (outcome_of_found hseg).2.2, Segment.occurrence?_found,
      Option.bind_some, Function.comp_apply]

end Report

/-- The conversion of a text keeps everything between the matches and puts a replacement for each
of them. The matches that are dates are counted and all others reported, each at its own place in
the text that was read; neither depends on the output format. -/
theorem report_splices (c : Converter) (text : List Char) :
    (∃ l : Layout, l.text = text ∧ l.spans = (c.find text).map Match.span ∧
      l.pieces = (c.find text).map (·.span.slice text) ∧
      (c.report text).text = l.fill ((c.find text).map (c.replacement text))) ∧
    (c.report text).replaced = (c.find text).countP (fun m => (c.parseMatch text m).isOk) ∧
    (c.report text).skipped = (c.find text).filterMap (c.skipped? text) ∧
    (c.report text).replaced + (c.report text).skipped.length = (c.find text).length ∧
    ∀ output : OutputFormat,
      (({ c with output } : Converter).report text).replaced = (c.report text).replaced ∧
        (({ c with output } : Converter).report text).skipped = (c.report text).skipped := by
  refine ⟨⟨.ofSegments (scan c.input.tokens 0 text), Layout.text_scan _ _, Layout.spans_scan _ _,
    ?_, report_text_eq c text⟩, report_replaced_eq c text, report_skipped_eq c text, ?_,
    fun output => ⟨rfl, rfl⟩⟩
  · rw [Converter.find, findMatches_eq, Layout.pieces_ofSegments, List.map_map]
    apply List.map_congr_left
    intro o ho
    obtain ⟨seg, hseg, ho⟩ := List.mem_filterMap.1 ho
    cases seg with
    | plain x => cases ho
    | found o' =>
      cases ho
      obtain ⟨pre, post, h⟩ := List.append_of_mem hseg
      exact (parseMatch_toMatch h).2.symm
  · rw [report_replaced_eq, report_skipped_eq, Converter.length_skipped]

end Redate
