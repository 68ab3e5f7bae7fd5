/-
Documents of dates between other texts. The search passes over what separates the dates and finds
each of them as it was written. So a document in one format is converted to the same document in
another, and back again.
-/
import Redate.Proofs.Conversion.Rereading
import Redate.Proofs.Conversion.Splice

namespace Redate

/-! ## Separators -/

/-- The character cannot be part of a date: it is no ASCII letter or digit, no long s, and no
literal of the format. -/
structure Separates (tokens : List Token) (c : Char) : Prop where
  not_isAlphanum : ¬ c.isAlphanum
  ne_longS : c ≠ 'ſ'
  not_literal : .literal c ∉ tokens

/-- What a decomposition takes holds no separator. -/
theorem IsDecomposition.not_mem_of_separates {tokens : List Token} {text : List Char}
    {d : Decomposition} (hd : IsDecomposition tokens text d) {c : Char}
    (hc : Separates tokens c) : c ∉ d.text := by
  intro hmem
  obtain ⟨p, hp, hcp⟩ := List.mem_flatMap.1 hmem
  have hf := hd.fits p hp
  unfold Part.text at hcp
  cases hpt : p.taken with
  | none => rw [hpt] at hcp; cases hcp
  | some w =>
    rw [hpt] at hf hcp
    rcases hf.mem hcp with h | h | h
    · exact hc.not_isAlphanum h
    · exact hc.ne_longS h
    · refine hc.not_literal ?_
      rw [← hd.tokens_eq, ← h]
      exact List.mem_map_of_mem hp

section Search

variable {tokens : List Token} (ht : ∃ t ∈ tokens.filterMap Token.tag?, t.kind? = some .year)
include ht

/-- A year takes text. -/
theorem IsDecomposition.text_ne_nil {text : List Char} {d : Decomposition}
    (hd : IsDecomposition tokens text d) : d.text ≠ [] := by
  intro h
  obtain ⟨t, hm, hk⟩ := ht
  rw [mem_tags_iff, ← hd.tokens_eq] at hm
  obtain ⟨p, hp, hpt⟩ := List.mem_map.1 hm
  have hf := hd.fits p hp
  rw [hd.taken_eq_none h p hp, hpt] at hf
  cases t <;> first | exact hf.elim | cases hk

/-- No date begins with a separator. -/
theorem not_isDecomposition_of_separates {c : Char} {rest : List Char} (hc : Separates tokens c)
    (d : Decomposition) : ¬ IsDecomposition tokens (c :: rest) d := by
  intro hd
  obtain ⟨x, more, hx⟩ := List.exists_cons_of_ne_nil (hd.text_ne_nil ht)
  -- the separator would be the first character taken
  have htext := hd.text_eq
  rw [hx, List.cons_append, List.cons.injEq] at htext
  refine hd.not_mem_of_separates hc ?_
  rw [hx, htext.1]
  exact List.mem_cons_self

/-- The search passes over separators. -/
theorem scan_separator {sep : List Char} (hs : ∀ c ∈ sep, Separates tokens c) (start : Nat)
    (rest : List Char) :
    scan tokens start (sep ++ rest) =
      sep.map Segment.plain ++ scan tokens (start + byteLength sep) rest := by
  induction sep generalizing start with
  | nil => rfl
  | cons c sep ih =>
    obtain ⟨hc, hs⟩ := List.forall_mem_cons.1 hs
    rw [List.cons_append, scan_of_not_isDecomposition (not_isDecomposition_of_separates ht hc),
      ih hs, byteLength_cons, Nat.add_assoc]
    rfl

/-- The search finds a written date. -/
theorem scan_written {d : Date} (hy : 0 ≤ d.year ∧ d.year ≤ 9999)
    (hc : tokens.IsChain KeepsApart) {rest : List Char} (hr : NoDigit rest) (start : Nat) :
    scan tokens start (tokens.flatMap (Token.render d) ++ rest) =
      .found ⟨start, writtenParts d tokens⟩ ::
        scan tokens (start + byteLength (tokens.flatMap (Token.render d))) rest := by
  have hd := firstDecomposition_written hy hc hr
  have hne := (isFirst_of_firstDecomposition hd).isDecomposition.text_ne_nil ht
  rw [scan_of_text_ne_nil hd hne, Decomposition.text, flatMap_text_writtenParts]

end Search

/-! ## Outcomes one after the other -/

/-- The outcomes write a text with `n` dates replaced and none skipped. -/
structure Writes (output : OutputFormat) (outcomes : List Outcome) (text : List Char)
    (n : Nat) : Prop where
  text_eq : outcomes.flatMap (Outcome.text output) = text
  replaced_eq : outcomes.countP Outcome.isReplaced = n
  skipped_eq : outcomes.filterMap Outcome.skipped? = []

namespace Writes

variable {output : OutputFormat} {outcomes : List Outcome} {text : List Char} {n : Nat}

theorem kept (h : Writes output outcomes text n) (sep : List Char) :
    Writes output (sep.map Outcome.kept ++ outcomes) (sep ++ text) n := by
  induction sep with
  | nil => exact h
  | cons c sep ih =>
    exact ⟨congrArg (c :: ·) ih.text_eq,
      (List.countP_cons_of_neg Bool.false_ne_true).trans ih.replaced_eq, ih.skipped_eq⟩

theorem replaced (h : Writes output outcomes text n) (o : Occurrence) (d : Date) :
    Writes output (.replaced o d :: outcomes) (output.render d ++ text) (n + 1) := by
  refine ⟨?_, ?_, h.skipped_eq⟩
  · rw [List.flatMap_cons, h.text_eq]
    rfl
  · rw [List.countP_cons_of_pos rfl, h.replaced_eq]

end Writes

theorem Converter.report_of_writes {c : Converter} {text written : List Char} {n : Nat}
    (h : Writes c.output (c.outcomes text) written n) : c.report text = ⟨written, n, []⟩ := by
  rw [report, Report.mk.injEq]
  exact ⟨h.text_eq, h.replaced_eq, h.skipped_eq⟩

/-! ## Documents -/

/-- Dates in a text: what stands in front of the first, and each with what stands behind it. -/
structure Document where
  first : List Char
  entries : List (Date × List Char)

namespace Document

/-- The document with its dates written in a format. -/
def text (doc : Document) (f : OutputFormat) : List Char :=
  doc.first ++ doc.entries.flatMap fun e => f.render e.1 ++ e.2

/-- The texts between the dates are made of certain characters, and no two dates touch. -/
structure SetApart (doc : Document) (P : Char → Prop) : Prop where
  first : ∀ c ∈ doc.first, P c
  behind : ∀ e ∈ doc.entries, ∀ c ∈ e.2, P c
  between : doc.entries.IsChain fun e _ => e.2 ≠ []

end Document

/-- The format has a tag of every kind, and no number without leading zeros runs into a digit. -/
structure InputFormat.IsComplete (f : InputFormat) : Prop where
  kinds : ∀ k, ∃ t ∈ f.tags, t.kind? = some k
  keepsApart : f.tokens.IsChain KeepsApart

theorem render_compile (text : String) (d : Date) :
    (OutputFormat.compile text).render d = (tokenize text.toList).flatMap (Token.render d) :=
  OutputFormat.render_eq _ d

theorem noDigit_of_separates {tokens : List Token} {c : Char} (hc : Separates tokens c)
    (rest : List Char) : NoDigit (c :: rest) := by
  rintro x ⟨⟩ hd
  exact hc.not_isAlphanum (by rw [Char.isAlphanum, hd, Bool.or_true])

theorem noDigit_behind {tokens : List Token} {e : Date × List Char}
    {es : List (Date × List Char)} (hs : ∀ c ∈ e.2, Separates tokens c)
    (hb : (e :: es).IsChain fun e _ => e.2 ≠ []) (f : OutputFormat) :
    NoDigit (e.2 ++ es.flatMap fun e => f.render e.1 ++ e.2) := by
  cases he : e.2 with
  | cons c sep => exact noDigit_of_separates (hs c (by simp [he])) _
  | nil =>
    -- only the last date may have nothing behind it
    cases es with
    | nil => rintro c ⟨⟩
    | cons e' es => exact absurd he hb.rel

/-- The search finds the dates of a document, each as it was written, and nothing else. -/
theorem writes_entries {f : InputFormat} (hc : f.tokens.IsChain KeepsApart)
    (output : OutputFormat) {entries : List (Date × List Char)}
    (ht : ∀ e ∈ entries, TellsDate e.1 f.tags)
    (hs : ∀ e ∈ entries, ∀ c ∈ e.2, Separates f.tokens c)
    (hb : entries.IsChain fun e _ => e.2 ≠ []) (start : Nat) :
    Writes output
      ((scan f.tokens start
        (entries.flatMap fun e => (OutputFormat.compile f.text).render e.1 ++ e.2)).map
          Outcome.ofSegment)
      (entries.flatMap fun e => output.render e.1 ++ e.2) entries.length := by
  induction entries generalizing start with
  | nil =>
    rw [List.flatMap_nil, scan_nil]
    exact ⟨rfl, rfl, rfl⟩
  | cons e es ih =>
    obtain ⟨hte, ht⟩ := List.forall_mem_cons.1 ht
    obtain ⟨hse, hs⟩ := List.forall_mem_cons.1 hs
    have hnext := noDigit_behind hse hb (.compile f.text)
    have ho : ∀ start, Outcome.ofSegment (.found ⟨start, writtenParts e.1 f.tokens⟩) =
        .replaced ⟨start, writtenParts e.1 f.tokens⟩ e.1 := by
      intro start
      simp only [Outcome.ofSegment, parseFields_written hte]
    -- the search takes the first date and what stands behind it; the rest is the induction
    rw [List.flatMap_cons, List.append_assoc, render_compile, List.flatMap_cons,
      List.append_assoc]
    rw [show tokenize f.text.toList = f.tokens from rfl,
      scan_written (hte.kinds .year) hte.year_bounds hc hnext, scan_separator (hte.kinds .year) hse,
      List.map_cons, ho, List.map_append, List.map_map]
    exact ((ih ht hs hb.tail _).kept e.2).replaced _ e.1

/-- A document is converted date by date. -/
theorem report_written {f : InputFormat} (hf : f.IsComplete) (output : OutputFormat)
    {doc : Document} (ht : ∀ e ∈ doc.entries, TellsDate e.1 f.tags)
    (hs : doc.SetApart (Separates f.tokens)) :
    (⟨f, output⟩ : Converter).report (doc.text (.compile f.text)) =
      ⟨doc.text output, doc.entries.length, []⟩ := by
  refine Converter.report_of_writes ?_
  unfold Converter.outcomes Document.text
  rw [scan_separator (hf.kinds .year) hs.first, List.map_append, List.map_map]
  exact (writes_entries hf.keepsApart output ht hs.behind hs.between _).kept doc.first

theorem Document.SetApart.imp {doc : Document} {P Q : Char → Prop} (h : ∀ c, P c → Q c)
    (hs : doc.SetApart P) : doc.SetApart Q where
  first c hc := h c (hs.first c hc)
  behind e he c hc := h c (hs.behind e he c hc)
  between := hs.between

/-- The dates of a document, written in one format and converted to another: the document is the
same in the other format, every date of it is replaced and none skipped, and converted back it is
as it was. Either both formats have the year with its century last, or all years are those that two
digits tell. -/
theorem report_document {f₁ f₂ : InputFormat} (h₁ : f₁.IsComplete) (h₂ : f₂.IsComplete)
    {doc : Document}
    (hy : lastOfKind .year f₁.tags = some .year ∧ lastOfKind .year f₂.tags = some .year ∧
        (∀ e ∈ doc.entries, 0 ≤ e.1.year ∧ e.1.year ≤ 9999) ∨
      ∀ e ∈ doc.entries, 1969 ≤ e.1.year ∧ e.1.year ≤ 2068)
    (hs : doc.SetApart fun c => Separates f₁.tokens c ∧ Separates f₂.tokens c) :
    ∃ c₁ c₂, Converter.compile f₁.text f₂.text = .ok c₁ ∧
      Converter.compile f₂.text f₁.text = .ok c₂ ∧
      let text₁ := doc.text (.compile f₁.text)
      let text₂ := doc.text (.compile f₂.text)
      c₁.report text₁ = ⟨text₂, doc.entries.length, []⟩ ∧
        c₂.report (c₁.convert text₁) = ⟨text₁, doc.entries.length, []⟩ := by
  -- in either case the years have four digits
  have hb : ∀ e ∈ doc.entries, 0 ≤ e.1.year ∧ e.1.year ≤ 9999 := by
    rcases hy with ⟨-, -, hy⟩ | hy
    · exact hy
    · intro e he
      have := hy e he
      omega
  have ht₁ : ∀ e ∈ doc.entries, TellsDate e.1 f₁.tags := fun e he =>
    ⟨h₁.kinds, hb e he, hy.imp And.left fun hy => hy e he⟩
  have ht₂ : ∀ e ∈ doc.entries, TellsDate e.1 f₂.tags := fun e he =>
    ⟨h₂.kinds, hb e he, hy.imp (·.2.1) fun hy => hy e he⟩
  have hr₁ := report_written h₁ (.compile f₂.text) ht₁ (hs.imp fun _ => And.left)
  have hr₂ := report_written h₂ (.compile f₁.text) ht₂ (hs.imp fun _ => And.right)
  have hc : ∀ f g : InputFormat,
      Converter.compile f.text g.text = .ok ⟨f, .compile g.text⟩ := by
    intro f g
    rw [Converter.compile, InputFormat.compile_eq_ok_iff.2 rfl]
    rfl
  refine ⟨_, _, hc f₁ f₂, hc f₂ f₁, hr₁, ?_⟩
  rw [Converter.convert, hr₁]
  exact hr₂

/-- Two dates that two-digit years tell, with ordinals and month names on one side. -/
theorem report_document_leap_day :
    let f₁ : InputFormat := ⟨"d1oo ms y2", by decide⟩
    let f₂ : InputFormat := ⟨"y4m2-d1", by decide⟩
    let doc : Document :=
      ⟨['*'], [(⟨1969, 7, 20, by decide⟩, [';', '*']), (⟨2024, 2, 29, by decide⟩, [])]⟩
    (f₁.IsComplete ∧ f₂.IsComplete ∧ (∀ e ∈ doc.entries, 1969 ≤ e.1.year ∧ e.1.year ≤ 2068) ∧
      doc.SetApart fun c => Separates f₁.tokens c ∧ Separates f₂.tokens c) ∧
    ∃ c₁ c₂, Converter.compile f₁.text f₂.text = .ok c₁ ∧
      Converter.compile f₂.text f₁.text = .ok c₂ ∧
      let text₁ := doc.text (.compile f₁.text)
      let text₂ := doc.text (.compile f₂.text)
      c₁.report text₁ = ⟨text₂, 2, []⟩ ∧ c₂.report (c₁.convert text₁) = ⟨text₁, 2, []⟩ := by
  intro f₁ f₂ doc
  have hk : ∀ k, (∃ t ∈ f₁.tags, t.kind? = some k) ∧ ∃ t ∈ f₂.tags, t.kind? = some k := by
    intro k
    cases k <;> decide
  have h₁ : f₁.IsComplete := ⟨fun k => (hk k).1, by decide⟩
  have h₂ : f₂.IsComplete := ⟨fun k => (hk k).2, by decide⟩
  have hy : ∀ e ∈ doc.entries, 1969 ≤ e.1.year ∧ e.1.year ≤ 2068 := by decide
  have ht₁ : f₁.tokens = [.tag .day, .tag .optionalOrdinal, .literal ' ', .tag .shortMonthName,
      .literal ' ', .tag .shortYear] := by decide
  have ht₂ : f₂.tokens = [.tag .year, .tag .paddedMonth, .literal '-', .tag .day] := by decide
  have hsep : ∀ c, c = '*' ∨ c = ';' → Separates f₁.tokens c ∧ Separates f₂.tokens c := by
    rw [ht₁, ht₂]
    rintro c (rfl | rfl) <;>
      exact ⟨⟨by decide, by decide, by decide⟩, by decide, by decide, by decide⟩
  have hd : doc.SetApart fun c => c = '*' ∨ c = ';' := by
    constructor <;> simp [doc]
  have hs := hd.imp hsep
  exact ⟨⟨h₁, h₂, hy, hs⟩, report_document h₁ h₂ (.inr hy) hs⟩

end Redate
