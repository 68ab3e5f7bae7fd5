/-
Written dates are in the language of their format. A format writes one piece of its shape for each
token and nothing else, whether or not the pieces can be told apart again, so that the search for
the format finds a match where the written date begins. The years that matches stand for have four
digits, and so all dates that a conversion puts in can be found by the format that it writes.
-/
import Redate.Proofs.Conversion.Delimiter
import Redate.Proofs.Conversion.Splice
import Redate.Proofs.Format.Written

namespace Redate

/-! ## Written dates are taken whole -/

theorem isDecomposition_written {d : Date} {tokens : List Token}
    (hy : .tag .year ∈ tokens → 0 ≤ d.year ∧ d.year ≤ 9999) :
    IsDecomposition tokens (tokens.flatMap (Token.render d)) ⟨writtenParts d tokens, []⟩ where
  tokens_eq := by
    rw [writtenParts, List.map_map]
    exact List.map_id tokens
  fits p hp := by
    obtain ⟨t, ht, rfl⟩ := List.mem_map.1 hp
    refine Token.fits_render_of_year ?_
    rintro rfl
    exact hy ht
  text_eq := by
    rw [Decomposition.text, flatMap_text_writtenParts, List.append_nil]

theorem flatMap_render_ne_nil {d : Date} {tokens : List Token} (ht : tokens ≠ [])
    (hy : .tag .year ∈ tokens → 0 ≤ d.year ∧ d.year ≤ 9999) :
    tokens.flatMap (Token.render d) ≠ [] := by
  obtain ⟨t, ts, rfl⟩ := List.exists_cons_of_ne_nil ht
  have hf : t.Fits (some (t.render d)) := Token.fits_render_of_year <| by
    rintro rfl
    exact hy List.mem_cons_self
  rw [List.flatMap_cons]
  exact List.append_ne_nil_of_left_ne_nil hf.ne_nil _

/-! ## The search finds what can be taken -/

/-- Where a text can be taken that is not empty, the search takes one. -/
theorem scan_of_isDecomposition {tokens : List Token} {start : Nat} {text : List Char}
    {d : Decomposition} (hd : IsDecomposition tokens text d) (hne : d.text ≠ []) :
    ∃ o segs, scan tokens start text = .found o :: segs ∧ o.start = start := by
  cases hf : firstDecomposition tokens text with
  | none => exact absurd hd (firstDecomposition_eq_none_iff.1 hf d)
  | some e =>
    have he : e.text ≠ [] := by
      intro he
      rw [(isFirst_of_firstDecomposition hf).eq_of_text_eq_nil he hd] at hne
      exact hne he
    exact ⟨_, _, scan_of_text_ne_nil hf he, rfl⟩

theorem head?_findMatches_of_isDecomposition {tokens : List Token} {text : List Char}
    {d : Decomposition} (hd : IsDecomposition tokens text d) (hne : d.text ≠ []) :
    ∃ m, (findMatches tokens text).head? = some m ∧ m.span.start = 0 := by
  obtain ⟨o, segs, hs, ho⟩ := scan_of_isDecomposition hd hne
  rw [findMatches_eq, hs, occurrences_found]
  exact ⟨o.toMatch, rfl, ho⟩

theorem tokenize_ne_nil {format : String} (h : format ≠ "") : tokenize format.toList ≠ [] := by
  intro ht
  have := flatMap_text_tokenize format.toList
  rw [ht] at this
  exact h (String.toList_eq_nil_iff.1 this.symm)

/-! ## Dates of matches -/

/-- Whatever match it is that stands for a date, the year has four digits. -/
theorem year_bounds_of_parseMatch {c : Converter} {text : List Char} {m : Match} {d : Date}
    (h : c.parseMatch text m = .ok d) : 0 ≤ d.year ∧ d.year ≤ 9999 := by
  obtain ⟨hf, hy, -, -⟩ := Template.parseFields_eq_ok_iff.1 h
  rw [hy]
  exact Template.year_bounds_of_fits hf

/-- What a format writes for a date is, from end to end, one piece of its shape for each of its
tokens, unless it has the year in full and the year has not four digits; and the first match of the
format in it begins with it. What a conversion puts in for its matches is of this kind: their years
have four digits, and are written with four where they are written in full. -/
theorem written_date_matches :
    (∀ (f : InputFormat) (output : OutputFormat) (d : Date),
      (.year ∈ f.tags → 0 ≤ d.year ∧ d.year ≤ 9999) →
      let written := (OutputFormat.compile f.text).render d
      IsDecomposition f.tokens written ⟨writtenParts d f.tokens, []⟩ ∧
        (f.text ≠ "" → ∃ m, ((⟨f, output⟩ : Converter).find written).head? = some m ∧
          m.span.start = 0)) ∧
    ∀ (c : Converter) (text : List Char),
      (∃ l : Layout, l.text = text ∧ l.spans = (c.find text).map Match.span ∧
        (c.report text).text = l.fill ((c.find text).map (c.replacement text))) ∧
      ∀ m ∈ c.find text, ∀ d, c.parseMatch text m = .ok d →
        let tokens := tokenize c.output.text.toList
        (0 ≤ d.year ∧ d.year ≤ 9999) ∧
          IsDecomposition tokens (c.replacement text m) ⟨writtenParts d tokens, []⟩ ∧
          Digits 4 (Tag.year.render d) := by
  constructor
  · intro f output d hy written
    have hy : .tag .year ∈ f.tokens → 0 ≤ d.year ∧ d.year ≤ 9999 := fun h => hy (mem_tags_iff.2 h)
    have hw : written = f.tokens.flatMap (Token.render d) := OutputFormat.render_eq _ d
    have hd := isDecomposition_written hy
    rw [← hw] at hd
    refine ⟨hd, fun hf => head?_findMatches_of_isDecomposition hd ?_⟩
    rw [Decomposition.text, flatMap_text_writtenParts]
    exact flatMap_render_ne_nil (tokenize_ne_nil hf) hy
  · intro c text
    refine ⟨⟨.ofSegments (scan c.input.tokens 0 text), Layout.text_scan _ _, Layout.spans_scan _ _,
      report_text_eq c text⟩, ?_⟩
    intro m _ d h tokens
    have hy := year_bounds_of_parseMatch h
    have hr : c.replacement text m = tokens.flatMap (Token.render d) := by
      rw [Converter.replacement, h]
      exact OutputFormat.render_eq _ d
    have hyear : Tag.year.Fits (some (Tag.year.render d)) := Tag.fits_render_of_year fun _ => hy
    exact ⟨hy, hr ▸ isDecomposition_written fun _ => hy, hyear⟩

/-- Numbers that run into each other, of a date before year 0 without its century, and of a date
that was read from a short one. -/
theorem written_date_matches_digits :
    let f : InputFormat := ⟨"d1d1y2", by decide⟩
    let output : OutputFormat := .compile "y4"
    let d : Date := ⟨-4, 2, 29, by decide⟩
    let written := (OutputFormat.compile f.text).render d
    let c : Converter := ⟨⟨"m2y2", by decide⟩, .compile "d1y4m1or"⟩
    let text := ['0', '2', '6', '9']
    let m : Match := ⟨⟨0, 4⟩, [some ⟨0, 2⟩, some ⟨2, 4⟩]⟩
    let e : Date := ⟨1969, 2, 1, by decide⟩
    let tokens := tokenize c.output.text.toList
    (.year ∉ f.tags ∧ IsDecomposition f.tokens written ⟨writtenParts d f.tokens, []⟩ ∧
      f.text ≠ "" ∧ ∃ m, ((⟨f, output⟩ : Converter).find written).head? = some m ∧
        m.span.start = 0) ∧
    m ∈ c.find text ∧ c.parseMatch text m = .ok e ∧ (0 ≤ e.year ∧ e.year ≤ 9999) ∧
      IsDecomposition tokens (c.replacement text m) ⟨writtenParts e tokens, []⟩ ∧
      Digits 4 (Tag.year.render e) := by
  intro f output d written c text m e tokens
  have hy : .year ∉ f.tags := by decide
  have hf : f.text ≠ "" := by decide
  obtain ⟨hd, hm⟩ := written_date_matches.1 f output d fun h => absurd h hy
  have hfirst : firstDecomposition c.input.tokens text =
      some ⟨[⟨.tag .paddedMonth, some ['0', '2']⟩, ⟨.tag .shortYear, some ['6', '9']⟩], []⟩ := by
    rw [firstDecomposition_eq]; decide
  have hmem : m ∈ c.find text := by
    rw [Converter.find, findMatches, scan_of_text_ne_nil hfirst (by decide), scan_nil]
    decide
  have hp : c.parseMatch text m = .ok e := by decide
  exact ⟨⟨hy, hd, hf, hm hf⟩, hmem, hp, (written_date_matches.2 c text).2 m hmem e hp⟩

end Redate
