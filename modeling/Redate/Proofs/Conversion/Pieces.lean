/-
Converting a text in pieces. A text may be cut at a separator, or at either end of a match: the
report on the whole is the reports on the pieces in a row, the later ones with their places moved
on. So a text is converted line by line, unless line feeds belong to the format.
-/
import Redate.Proofs.Conversion.RoundTrip
import Redate.Proofs.Matching.Cuts

namespace Redate

/-! ## Reports in a row -/

/-- The same skip for a text that stands `n` bytes further on. -/
def Skipped.shift (n : Nat) (s : Skipped) : Skipped :=
  { s with span := s.span.shift n }

namespace Report

/-- The report on the same text, standing `n` bytes further on. -/
def shift (n : Nat) (r : Report) : Report :=
  { r with skipped := r.skipped.map (Skipped.shift n) }

@[simp] theorem text_append (r r' : Report) : (r ++ r').text = r.text ++ r'.text := rfl

@[simp] theorem text_kept (text : List Char) : (kept text).text = text := rfl

@[simp] theorem text_shift (n : Nat) (r : Report) : (r.shift n).text = r.text := rfl

theorem append_kept_nil (r : Report) : r ++ kept [] = r := by
  show (⟨r.text ++ [], r.replaced + 0, r.skipped ++ []⟩ : Report) = r
  rw [List.append_nil, List.append_nil, Nat.add_zero]

/-- What a conversion makes of segments. -/
def ofSegments (output : OutputFormat) (segs : List Segment) : Report where
  text := (segs.map Outcome.ofSegment).flatMap (Outcome.text output)
  replaced := (segs.map Outcome.ofSegment).countP Outcome.isReplaced
  skipped := (segs.map Outcome.ofSegment).filterMap Outcome.skipped?

theorem ofSegments_append (output : OutputFormat) (pre post : List Segment) :
    ofSegments output (pre ++ post) = ofSegments output pre ++ ofSegments output post := by
  simp only [ofSegments, List.map_append, List.flatMap_append, List.countP_append,
    List.filterMap_append]
  rfl

theorem ofSegments_plain (output : OutputFormat) (c : Char) :
    ofSegments output [.plain c] = kept [c] := rfl

end Report

/-- The outcome of a segment does not depend on its place, but for the span that is reported. -/
theorem outcome_shift (output : OutputFormat) (n : Nat) (seg : Segment) :
    (Outcome.ofSegment (seg.shift n)).text output = (Outcome.ofSegment seg).text output ∧
      (Outcome.ofSegment (seg.shift n)).isReplaced = (Outcome.ofSegment seg).isReplaced ∧
      (Outcome.ofSegment (seg.shift n)).skipped? =
        (Outcome.ofSegment seg).skipped?.map (Skipped.shift n) := by
  cases seg with
  | plain c => exact ⟨rfl, rfl, rfl⟩
  | found o =>
    have hf : (⟨o.start + n, o.parts⟩ : Occurrence).fields = o.fields := rfl
    have hs : (⟨o.start + n, o.parts⟩ : Occurrence).span = o.span.shift n := by
      simp only [Occurrence.span, Span.shift, Nat.add_right_comm]
      rfl
    simp only [Segment.shift, Outcome.ofSegment, hf]
    split
    · exact ⟨rfl, rfl, rfl⟩
    · exact ⟨rfl, rfl, congrArg (fun span => some (⟨span, o.text, _⟩ : Skipped)) hs⟩

theorem Report.ofSegments_shift (output : OutputFormat) (n : Nat) (segs : List Segment) :
    ofSegments output (segs.map (Segment.shift n)) = (ofSegments output segs).shift n := by
  simp only [ofSegments, shift, List.map_map, List.flatMap_map, List.countP_map,
    List.filterMap_map, List.map_filterMap, Function.comp_def, (outcome_shift output n _).1,
    (outcome_shift output n _).2.1, (outcome_shift output n _).2.2]

/-! ## Cuts -/

section Cut

variable {c : Converter} {a b : List Char}

theorem report_eq_ofSegments (c : Converter) (text : List Char) :
    c.report text = .ofSegments c.output (scan c.input.tokens 0 text) := rfl

/-- A cut between two segments of a text. -/
theorem report_append_of_scan {pre post : List Segment}
    (h : scan c.input.tokens 0 (a ++ b) = pre ++ post) (ha : pre.flatMap Segment.text = a) :
    c.report (a ++ b) = c.report a ++ (c.report b).shift (byteLength a) := by
  have hb := scan_back h ha
  rw [scan_add] at hb
  rw [report_eq_ofSegments, report_eq_ofSegments, report_eq_ofSegments, h, scan_front h ha,
    Report.ofSegments_append, ← hb, Report.ofSegments_shift]

/-- A cut at either end of a match. -/
theorem report_append_of_mem_find {m : Match} (hm : m ∈ c.find (a ++ b))
    (h : m.span.start = byteLength a ∨ m.span.stop = byteLength a) :
    c.report (a ++ b) = c.report a ++ (c.report b).shift (byteLength a) := by
  obtain ⟨pre, o, post, hscan, rfl⟩ := mem_findMatches_iff.1 hm
  have hs := (place_of_scan_eq hscan).1
  have ht := flatMap_text_scan c.input.tokens 0 (a ++ b)
  rw [hscan] at ht
  rcases h with h | h
  · rw [List.flatMap_append] at ht
    exact report_append_of_scan hscan (eq_of_byteLength_eq ht (hs.symm.trans h))
  · rw [List.append_cons] at hscan ht
    rw [List.flatMap_append] at ht
    refine report_append_of_scan hscan (eq_of_byteLength_eq ht ?_)
    rw [← h, List.flatMap_append, byteLength_append, ← hs]
    simp [Occurrence.toMatch, Occurrence.span, Segment.text]

/-- A cut around a separator. -/
theorem report_append_of_separates {x : Char} (hx : Separates c.input.tokens x) :
    c.report (a ++ [x] ++ b) =
      c.report a ++ .kept [x] ++ (c.report b).shift (byteLength (a ++ [x])) := by
  have ht := flatMap_text_scan c.input.tokens 0 (a ++ x :: b)
  have hn : ∀ o, .found o ∈ scan c.input.tokens 0 (a ++ x :: b) → x ∉ o.text := by
    intro o ho
    obtain ⟨pre, post, h⟩ := List.append_of_mem ho
    obtain ⟨-, -, hf⟩ := placed_of_scan_eq h
    exact hf.isDecomposition.not_mem_of_separates hx
  obtain ⟨pre, post, h, ha, -⟩ := exists_plain_of_not_mem hn ht
  have hax : (pre ++ [Segment.plain x]).flatMap Segment.text = a ++ [x] := by
    rw [List.flatMap_append, ha]
    rfl
  have hfront := scan_front h ha
  rw [List.append_cons a x b, List.append_cons pre _ post] at h
  rw [report_append_of_scan h hax, report_eq_ofSegments c (a ++ [x]), scan_front h hax,
    Report.ofSegments_append, Report.ofSegments_plain, report_eq_ofSegments c a, hfront]

end Cut

/-- The ways to cut a text in two: around a separator, which is on neither side, and at the start
or the end of a match. -/
inductive Converter.Cuts (c : Converter) : List Char → List Char → List Char → Prop
  | separator {a b : List Char} {x : Char} (hx : Separates c.input.tokens x) : Cuts c a [x] b
  | matchStart {a b : List Char} {m : Match} (hm : m ∈ c.find (a ++ b))
      (h : m.span.start = byteLength a) : Cuts c a [] b
  | matchStop {a b : List Char} {m : Match} (hm : m ∈ c.find (a ++ b))
      (h : m.span.stop = byteLength a) : Cuts c a [] b

theorem report_of_cuts {c : Converter} {a s b : List Char} (h : c.Cuts a s b) :
    c.report (a ++ s ++ b) =
      c.report a ++ .kept s ++ (c.report b).shift (byteLength (a ++ s)) := by
  cases h with
  | separator hx => exact report_append_of_separates hx
  | matchStart hm h =>
    rw [List.append_nil, Report.append_kept_nil]
    exact report_append_of_mem_find hm (.inl h)
  | matchStop hm h =>
    rw [List.append_nil, Report.append_kept_nil]
    exact report_append_of_mem_find hm (.inr h)

/-! ## Lines -/

/-- The lines of a text converted one by one, with line feeds between them. -/
def Converter.reportLines (c : Converter) : List (List Char) → Report
  | [] => .kept []
  | [line] => c.report line
  | line :: lines =>
    c.report line ++ .kept ['\n'] ++ (c.reportLines lines).shift (byteLength (line ++ ['\n']))

theorem mem_of_literal_mem_tokenize {format : List Char} {x : Char}
    (h : .literal x ∈ tokenize format) : x ∈ format := by
  rw [← flatMap_text_tokenize format]
  exact List.mem_flatMap.2 ⟨_, h, List.mem_singleton_self x⟩

theorem separates_lineFeed {f : InputFormat} (h : '\n' ∉ f.text.toList) :
    Separates f.tokens '\n' where
  not_isAlphanum := by decide
  ne_longS := by decide
  not_literal hl := h (mem_of_literal_mem_tokenize hl)

theorem report_intercalate {c : Converter} (h : Separates c.input.tokens '\n')
    (lines : List (List Char)) :
    c.report (['\n'].intercalate lines) = c.reportLines lines := by
  fun_induction c.reportLines lines with
  | case1 => exact congrArg (Report.ofSegments c.output) (scan_nil _ _)
  | case2 line => rw [List.intercalate_singleton]
  | case3 line lines hne ih =>
    obtain ⟨next, more, rfl⟩ := List.exists_cons_of_ne_nil hne
    rw [List.intercalate_cons_cons, ← ih]
    exact report_append_of_separates h

theorem text_reportLines (c : Converter) (lines : List (List Char)) :
    (c.reportLines lines).text = ['\n'].intercalate (lines.map c.convert) := by
  fun_induction c.reportLines lines with
  | case1 => rfl
  | case2 line => rw [List.map_singleton, List.intercalate_singleton]; rfl
  | case3 line lines hne ih =>
    obtain ⟨next, more, rfl⟩ := List.exists_cons_of_ne_nil hne
    rw [List.map_cons, List.map_cons, List.intercalate_cons_cons, ← List.map_cons, ← ih]
    simp only [Report.text_append, Report.text_kept, Report.text_shift]
    rfl

/-! ## Conversion in pieces -/

/-- A text that is cut in two is converted by converting both pieces: the texts are put together
around the separator, the counts are added, and the skipped matches of the second piece are moved
on to where it stands. So a text is converted line by line, if its format has no line feed. -/
theorem report_in_pieces (c : Converter) :
    (∀ a s b, c.Cuts a s b →
      c.report (a ++ s ++ b) =
        { text := (c.report a).text ++ s ++ (c.report b).text
          replaced := (c.report a).replaced + (c.report b).replaced
          skipped := (c.report a).skipped ++
            (c.report b).skipped.map (Skipped.shift (byteLength (a ++ s))) }) ∧
    ('\n' ∉ c.input.text.toList → ∀ text,
      c.report text = c.reportLines (text.splitOn '\n') ∧
        c.convert text = ['\n'].intercalate ((text.splitOn '\n').map c.convert)) := by
  refine ⟨fun a s b h => ?_, fun h text => ?_⟩
  · rw [report_of_cuts h]
    show (⟨_, _, (c.report a).skipped ++ [] ++ _⟩ : Report) = _
    rw [List.append_nil]
    rfl
  · have hr := report_intercalate (separates_lineFeed h) (text.splitOn '\n')
    rw [List.intercalate_splitOn] at hr
    exact ⟨hr, (congrArg Report.text hr).trans (text_reportLines c _)⟩

/-- Two dates without anything between them are cut where the first ends, and a line feed is a
cut, also where a match that is no date is reported behind it. -/
theorem report_in_pieces_twice :
    let c : Converter := ⟨⟨"d1oom1", by decide⟩, .compile "y4"⟩
    let a := ['1', 's', 't', '1', '2']
    let b := ['3', '0', 't', 'h', '1', '3']
    (c.Cuts a [] b ∧ c.Cuts a ['\n'] b ∧ '\n' ∉ c.input.text.toList) ∧
      c.report (a ++ [] ++ b) =
        { text := (c.report a).text ++ [] ++ (c.report b).text
          replaced := (c.report a).replaced + (c.report b).replaced
          skipped := (c.report a).skipped ++
            (c.report b).skipped.map (Skipped.shift (byteLength (a ++ []))) } ∧
      c.report (a ++ ['\n'] ++ b) =
        { text := (c.report a).text ++ ['\n'] ++ (c.report b).text
          replaced := (c.report a).replaced + (c.report b).replaced
          skipped := (c.report a).skipped ++
            (c.report b).skipped.map (Skipped.shift (byteLength (a ++ ['\n']))) } ∧
      c.report (a ++ ['\n'] ++ b) = c.reportLines [a, b] ∧
      c.convert (a ++ ['\n'] ++ b) = ['\n'].intercalate [c.convert a, c.convert b] := by
  intro c a b
  have hd : firstDecomposition c.input.tokens (a ++ b) =
      some ⟨[⟨.tag .day, some ['1']⟩, ⟨.tag .optionalOrdinal, some ['s', 't']⟩,
        ⟨.tag .month, some ['1', '2']⟩], b⟩ := by
    rw [firstDecomposition_eq]; decide
  have hm : (⟨⟨0, 5⟩, [some ⟨0, 1⟩, some ⟨1, 3⟩, some ⟨3, 5⟩]⟩ : Match) ∈ c.find (a ++ b) := by
    rw [Converter.find, findMatches, scan_of_text_ne_nil hd (by decide)]
    exact List.mem_cons_self
  have hcut : c.Cuts a [] b := .matchStop hm rfl
  have hn : '\n' ∉ c.input.text.toList := by decide
  have hline : c.Cuts a ['\n'] b := .separator (separates_lineFeed hn)
  have hs : (a ++ ['\n'] ++ b).splitOn '\n' = [a, b] := by decide
  have hlines := (report_in_pieces c).2 hn (a ++ ['\n'] ++ b)
  rw [hs] at hlines
  exact ⟨⟨hcut, hline, hn⟩, (report_in_pieces c).1 a [] b hcut,
    (report_in_pieces c).1 a ['\n'] b hline, hlines⟩

end Redate
