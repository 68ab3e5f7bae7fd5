/-
Formats of optional ordinals only. Such a format finds runs of ordinal suffixes. They tell nothing
about a date, but every one of them reads as the date that fields have by default, and is
replaced. So a text stays as it is exactly when it has no ordinal suffix, or the format is empty.
-/
import Redate.Proofs.Conversion.Splice
import Redate.Proofs.Matching.Cuts

namespace Redate

open Template (parseFields)

/-! ## Formats without fields -/

/-- The date of fields that are not mentioned. -/
def defaultDate : Date :=
  ⟨0, 1, 1, by decide⟩

/-- A match that was found by a format without fields reads as the default date. -/
theorem parseMatch_of_slot?_eq_none {c : Converter} {text : List Char} {m : Match}
    (ht : ∀ t ∈ c.input.tags, t.slot? = none) (hm : m ∈ c.find text) :
    c.parseMatch text m = .ok defaultDate := by
  obtain ⟨before, d, rfl, -, hf, rfl⟩ := place_of_mem_findMatches hm
  rw [Converter.parseMatch_eq, captures_of_place hf.isDecomposition.tokens_eq]
  have hn : (tagTexts d.parts).filterMap fieldOf = [] := by
    apply List.filterMap_eq_nil_iff.2
    intro p hp
    obtain ⟨part, hpart, hp⟩ := List.mem_filterMap.1 hp
    obtain ⟨t, htag, rfl⟩ := Option.map_eq_some_iff.1 hp
    have hmem : t ∈ c.input.tags := by
      rw [InputFormat.tags, ← hf.isDecomposition.tokens_eq, List.filterMap_map]
      exact List.mem_filterMap.2 ⟨part, hpart, htag⟩
    rw [fieldOf, ht t hmem]
    rfl
  rw [hn]
  rfl

theorem mem_scan_of_mem_occurrences {segs : List Segment} {o : Occurrence}
    (h : o ∈ occurrences segs) : .found o ∈ segs := by
  obtain ⟨seg, hseg, ho⟩ := List.mem_filterMap.1 h
  cases seg with
  | plain x => cases ho
  | found o' => cases ho; exact hseg

/-- Without fields every match is replaced by the default date. -/
theorem report_of_slot?_eq_none {c : Converter} (ht : ∀ t ∈ c.input.tags, t.slot? = none)
    (text : List Char) :
    let l := Layout.ofSegments (scan c.input.tokens 0 text)
    c.report text = ⟨l.fill (l.pieces.map fun _ => c.render defaultDate), l.pieces.length, []⟩ := by
  intro l
  have hp : ∀ m ∈ c.find text, c.parseMatch text m = .ok defaultDate :=
    fun m hm => parseMatch_of_slot?_eq_none ht hm
  have hfind : c.find text = (occurrences (scan c.input.tokens 0 text)).map Occurrence.toMatch :=
    findMatches_eq _ _
  have hpieces : l.pieces = (occurrences (scan c.input.tokens 0 text)).map Occurrence.text :=
    Layout.pieces_ofSegments _
  have htext : (c.report text).text = l.fill (l.pieces.map fun _ => c.render defaultDate) := by
    have hr : (c.find text).map (c.replacement text) =
        (c.find text).map fun _ => c.render defaultDate := by
      apply List.map_congr_left
      intro m hm
      rw [Converter.replacement, hp m hm]
    rw [report_text_eq, hr, hfind, hpieces, List.map_map, List.map_map]
    rfl
  have hreplaced : (c.report text).replaced = l.pieces.length := by
    rw [report_replaced_eq, hpieces, List.length_map, ← List.length_map Occurrence.toMatch, ← hfind]
    apply List.countP_eq_length.2
    intro m hm
    rw [hp m hm]
    rfl
  have hskipped : (c.report text).skipped = [] := by
    rw [report_skipped_eq]
    apply List.filterMap_eq_nil_iff.2
    intro m hm
    rw [Converter.skipped?, hp m hm]
  rw [← htext, ← hreplaced, ← hskipped]

/-! ## Runs of ordinal suffixes -/

/-- The format of `n` optional ordinals. -/
def optionalOrdinals (n : Nat) : String :=
  String.ofList (List.replicate n Tag.optionalOrdinal.key).flatten

theorem tokenize_optionalOrdinals (n : Nat) :
    tokenize (optionalOrdinals n).toList = List.replicate n (.tag .optionalOrdinal) := by
  rw [optionalOrdinals, String.toList_ofList]
  induction n with
  | zero => rfl
  | succ n ih => exact congrArg (Token.tag .optionalOrdinal :: ·) ih

theorem automatonSize_replicate (dir : Direction) (n : Nat) (t : Token) :
    automatonSize dir (List.replicate n t) = n * t.size dir + dir.frame := by
  induction n with
  | zero => simp [automatonSize]
  | succ n ih =>
    have hs : automatonSize dir (List.replicate (n + 1) t) =
        t.size dir + automatonSize dir (List.replicate n t) := rfl
    rw [hs, ih, Nat.succ_mul]
    omega

/-- The size limit allows for 19417 optional ordinals. -/
theorem compile_optionalOrdinals {n : Nat} (h : 19417 < n) :
    InputFormat.compile (optionalOrdinals n) =
      .error (.invalidInputFormat (optionalOrdinals n) (.tooLarge sizeLimit)) := by
  apply dif_neg
  -- it is the forward automaton that outgrows the limit
  rw [tokenize_optionalOrdinals, compiledSize, automatonSize_replicate, Nat.max_le, not_and_or]
  left
  simp only [Token.size, Tag.size, Direction.frame, sizeLimit]
  omega

/-- One ordinal suffix or several, up to `n`. -/
def OrdinalRun (n : Nat) (w : List Char) : Prop :=
  ∃ ws : List (List Char), w = ws.flatten ∧ (∀ s ∈ ws, s ∈ ordinalSuffixes) ∧
    0 < ws.length ∧ ws.length ≤ n

theorem flatMap_text_eq_flatten (parts : List Part) :
    parts.flatMap Part.text = (parts.filterMap Part.taken).flatten := by
  induction parts with
  | nil => rfl
  | cons p parts ih =>
    rw [List.flatMap_cons, ih, List.filterMap_cons]
    unfold Part.text
    cases p.taken <;> rfl

section Runs

variable {n : Nat} {text : List Char}

/-- What optional ordinals take is a run of suffixes. -/
theorem IsDecomposition.ordinalRun {d : Decomposition}
    (hd : IsDecomposition (List.replicate n (.tag .optionalOrdinal)) text d) (hne : d.text ≠ []) :
    OrdinalRun n d.text := by
  have htext : d.text = (d.parts.filterMap Part.taken).flatten := flatMap_text_eq_flatten d.parts
  refine ⟨d.parts.filterMap Part.taken, htext, ?_, ?_, ?_⟩
  · intro s hs
    obtain ⟨p, hp, hs⟩ := List.mem_filterMap.1 hs
    have hf := hd.fits p hp
    have ht : p.token = .tag .optionalOrdinal := by
      apply List.eq_of_mem_replicate (n := n)
      rw [← hd.tokens_eq]
      exact List.mem_map_of_mem hp
    rw [ht, hs] at hf
    exact hf
  · apply List.length_pos_iff.2
    intro hn
    rw [hn] at htext
    exact hne htext
  · have hl : d.parts.length = n := by simpa using congrArg List.length hd.tokens_eq
    exact (List.length_filterMap_le _ _).trans hl.le

/-- At an ordinal suffix there is something to take. -/
theorem exists_isDecomposition_of_suffix (hn : n ≠ 0) {w : List Char} (hw : w ∈ ordinalSuffixes)
    (after : List Char) :
    ∃ d, IsDecomposition (List.replicate n (.tag .optionalOrdinal)) (w ++ after) d ∧
      d.text = w := by
  obtain ⟨k, rfl⟩ := Nat.exists_eq_succ_of_ne_zero hn
  -- the first ordinal takes the suffix, the others are left out
  have ht : (List.replicate k (⟨.tag .optionalOrdinal, none⟩ : Part)).flatMap Part.text = [] :=
    List.flatMap_eq_nil_iff.2 fun p hp => by rw [List.eq_of_mem_replicate hp]; rfl
  refine ⟨⟨⟨.tag .optionalOrdinal, some w⟩ :: List.replicate k ⟨.tag .optionalOrdinal, none⟩,
    after⟩, ⟨?_, ?_, ?_⟩, ?_⟩
  · rw [List.map_cons, List.map_replicate, List.replicate_succ]
  · refine List.forall_mem_cons.2 ⟨hw, fun p hp => ?_⟩
    rw [List.eq_of_mem_replicate hp]
    trivial
  · rw [Decomposition.text, List.flatMap_cons, ht, List.append_nil]
    rfl
  · rw [Decomposition.text, List.flatMap_cons, ht, List.append_nil]
    rfl

theorem OrdinalRun.exists_suffix {w : List Char} (h : OrdinalRun n w) :
    n ≠ 0 ∧ ∃ s ∈ ordinalSuffixes, s <:+: w := by
  obtain ⟨ws, rfl, hs, hpos, hle⟩ := h
  obtain ⟨s, hmem⟩ := List.exists_mem_of_length_pos hpos
  exact ⟨by omega, s, hs s hmem, List.infix_of_mem_flatten hmem⟩

/-- Nothing is found exactly where there is no ordinal, in the format or in the text. -/
theorem findMatches_optionalOrdinals_eq_nil_iff :
    findMatches (List.replicate n (.tag .optionalOrdinal)) text = [] ↔
      n = 0 ∨ ∀ w ∈ ordinalSuffixes, ¬ w <:+: text := by
  constructor
  · intro h
    by_contra hc
    push Not at hc
    obtain ⟨hn, w, hw, before, after, rfl⟩ := hc
    obtain ⟨d, hd, hdw⟩ := exists_isDecomposition_of_suffix hn hw after
    rw [List.append_assoc] at h
    have hnil := text_eq_nil_of_outside (by rw [h]; simp) hd
    rw [← hdw, hnil] at hw
    exact absurd hw (by decide)
  · intro h
    apply List.eq_nil_iff_forall_not_mem.2
    intro m hm
    obtain ⟨before, d, rfl, hne, hf, -⟩ := place_of_mem_findMatches hm
    obtain ⟨hn, s, hs, hsd⟩ := (hf.isDecomposition.ordinalRun hne).exists_suffix
    refine h.elim hn fun h => h s hs (hsd.trans ?_)
    exact ⟨before, d.rest, rfl⟩

end Runs

/-! ## Conversion -/

theorem Layout.fill_of_pieces_eq_nil {l : Layout} (h : l.pieces = []) (pieces : List (List Char)) :
    l.fill pieces = l.text := by
  have hc : l.cuts = [] := List.map_eq_nil_iff.1 h
  rw [fill, text, hc, List.zipWith_nil_right]
  rfl

/-- The conversion from a format of `n` optional ordinals. What it finds are runs of ordinal
suffixes, and it replaces them all by the default date. So it leaves the text as it is, with
nothing replaced, only if the format is empty or no ordinal suffix is in the text. -/
theorem report_optionalOrdinals {n : Nat} {output : String} {c : Converter}
    (h : Converter.compile (optionalOrdinals n) output = .ok c) (text : List Char) :
    (∃ l : Layout, l.text = text ∧ l.spans = (c.find text).map Match.span ∧
      (∀ piece ∈ l.pieces, OrdinalRun n piece) ∧
      c.report text =
        ⟨l.fill (l.pieces.map fun _ => c.render defaultDate), l.pieces.length, []⟩) ∧
    (c.convert text = text ∧ (c.report text).replaced = 0 ↔
      n = 0 ∨ ∀ w ∈ ordinalSuffixes, ¬ w <:+: text) := by
  have htokens : c.input.tokens = List.replicate n (.tag .optionalOrdinal) := by
    rw [InputFormat.tokens, (Converter.compile_eq_ok_iff.1 h).1, tokenize_optionalOrdinals]
  have hslots : ∀ t ∈ c.input.tags, t.slot? = none := by
    intro t ht
    rw [InputFormat.tags, mem_tags_iff, htokens] at ht
    cases List.eq_of_mem_replicate ht
    rfl
  have hreport := report_of_slot?_eq_none hslots text
  refine ⟨⟨_, Layout.text_scan _ _, Layout.spans_scan _ _, fun piece hpiece => ?_, hreport⟩, ?_⟩
  · rw [Layout.pieces_ofSegments] at hpiece
    obtain ⟨o, ho, rfl⟩ := List.mem_map.1 hpiece
    obtain ⟨pre, post, hscan⟩ := List.append_of_mem (mem_scan_of_mem_occurrences ho)
    obtain ⟨-, hne, hf⟩ := placed_of_scan_eq hscan
    rw [htokens] at hf
    exact hf.isDecomposition.ordinalRun hne
  · rw [← findMatches_optionalOrdinals_eq_nil_iff, ← htokens, findMatches_eq,
      List.map_eq_nil_iff, ← List.map_eq_nil_iff (f := Occurrence.text),
      ← Layout.pieces_ofSegments, Converter.convert, hreport, List.length_eq_zero_iff]
    refine ⟨And.right, fun hn => ⟨?_, hn⟩⟩
    exact (Layout.fill_of_pieces_eq_nil hn _).trans (Layout.text_scan _ _)

/-- Two optional ordinals, and three suffixes in a row. -/
theorem report_optionalOrdinals_two :
    ∃ c, (Converter.compile (optionalOrdinals 2) "d1/m1" = .ok c) ∧
      (∃ l : Layout, l.text = ['s', 't', 't', 'h', 'r', 'd'] ∧
        l.spans = (c.find ['s', 't', 't', 'h', 'r', 'd']).map Match.span ∧
        (∀ piece ∈ l.pieces, OrdinalRun 2 piece) ∧
        c.report ['s', 't', 't', 'h', 'r', 'd'] =
          ⟨l.fill (l.pieces.map fun _ => c.render defaultDate), l.pieces.length, []⟩) ∧
      (c.convert ['s', 't', 't', 'h', 'r', 'd'] = ['s', 't', 't', 'h', 'r', 'd'] ∧
          (c.report ['s', 't', 't', 'h', 'r', 'd']).replaced = 0 ↔
        2 = 0 ∨ ∀ w ∈ ordinalSuffixes, ¬ w <:+: ['s', 't', 't', 'h', 'r', 'd']) := by
  have h : Converter.compile (optionalOrdinals 2) "d1/m1" =
      .ok ⟨⟨optionalOrdinals 2, by decide⟩, .compile "d1/m1"⟩ :=
    Converter.compile_eq_ok_iff.2 ⟨rfl, rfl⟩
  exact ⟨_, h, report_optionalOrdinals h _⟩

/-- An ordinal suffix alone is taken for the first of January of the year 0. -/
theorem report_optionalOrdinal_first :
    ∃ c, Converter.compile "oo" "y4" = .ok c ∧
      c.report ['1', 's', 't'] = ⟨['1', '0', '0', '0', '0'], 1, []⟩ ∧
      ¬ (c.convert ['1', 's', 't'] = ['1', 's', 't'] ∧
        (c.report ['1', 's', 't']).replaced = 0) := by
  have h : Converter.compile "oo" "y4" = .ok ⟨⟨"oo", by decide⟩, .compile "y4"⟩ :=
    Converter.compile_eq_ok_iff.2 ⟨rfl, rfl⟩
  have hd : firstDecomposition [.tag .optionalOrdinal] ['1', 's', 't'] =
      some ⟨[⟨.tag .optionalOrdinal, none⟩], ['1', 's', 't']⟩ := by
    rw [firstDecomposition_eq]; decide
  have hd' : firstDecomposition [.tag .optionalOrdinal] ['s', 't'] =
      some ⟨[⟨.tag .optionalOrdinal, some ['s', 't']⟩], []⟩ := by
    rw [firstDecomposition_eq]; decide
  have hscan : scan [.tag .optionalOrdinal] 0 ['1', 's', 't'] =
      [.plain '1', .found ⟨1, [⟨.tag .optionalOrdinal, some ['s', 't']⟩]⟩] := by
    rw [scan_of_text_eq_nil hd rfl, scan_of_text_ne_nil hd' (by decide), scan_nil]
    rfl
  have hr : (⟨⟨"oo", by decide⟩, .compile "y4"⟩ : Converter).report ['1', 's', 't'] =
      ⟨['1', '0', '0', '0', '0'], 1, []⟩ := by
    unfold Converter.report Converter.outcomes
    rw [show InputFormat.tokens ⟨"oo", _⟩ = [.tag .optionalOrdinal] from rfl, hscan]
    rfl
  refine ⟨_, h, hr, ?_⟩
  rw [hr]
  exact fun h => absurd h.2 (by decide)

end Redate
