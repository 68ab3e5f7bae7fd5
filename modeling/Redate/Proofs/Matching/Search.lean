/-
The search over a whole text. Every segment that it makes has its own place: a plain character
stands where no text can be taken, and an occurrence is the first decomposition at its start. So
each match is the preferred one where it begins, matches follow each other without overlap, and
outside of them nothing is missed.
-/
import Redate.Converter
import Redate.Proofs.Matching.Preference

namespace Redate

/-! ## Steps of the search -/

theorem scan_nil (tokens : List Token) (start : Nat) : scan tokens start [] = [] := by
  rw [scan]

theorem scan_of_text_ne_nil {tokens : List Token} {start : Nat} {text : List Char}
    {d : Decomposition} (hd : firstDecomposition tokens text = some d) (ht : d.text ≠ []) :
    scan tokens start text =
      .found ⟨start, d.parts⟩ :: scan tokens (start + byteLength d.text) d.rest := by
  cases text with
  | nil =>
    have := append_of_firstDecomposition hd
    exact absurd (List.append_eq_nil_iff.1 this).1 ht
  | cons c rest =>
    rw [scan]
    split
    · next d' hd' =>
      obtain rfl : d = d' := by simpa [hd] using hd'
      rw [dif_neg ht]
    · next hd' => rw [hd] at hd'; cases hd'

theorem scan_plain {tokens : List Token} {start : Nat} {c : Char} {rest : List Char}
    (h : ∀ d, IsDecomposition tokens (c :: rest) d → d.text = []) :
    scan tokens start (c :: rest) = .plain c :: scan tokens (start + c.utf8Size) rest := by
  rw [scan]
  split
  · next d hd => exact dif_pos (h d (isFirst_of_firstDecomposition hd).isDecomposition)
  · rfl

theorem scan_of_not_isDecomposition {tokens : List Token} {start : Nat} {c : Char}
    {rest : List Char} (h : ∀ d, ¬ IsDecomposition tokens (c :: rest) d) :
    scan tokens start (c :: rest) = .plain c :: scan tokens (start + c.utf8Size) rest :=
  scan_plain fun d hd => absurd hd (h d)

theorem scan_of_text_eq_nil {tokens : List Token} {start : Nat} {c : Char} {rest : List Char}
    {d : Decomposition} (hd : firstDecomposition tokens (c :: rest) = some d) (ht : d.text = []) :
    scan tokens start (c :: rest) = .plain c :: scan tokens (start + c.utf8Size) rest :=
  scan_plain fun e he => by rw [(isFirst_of_firstDecomposition hd).eq_of_text_eq_nil ht he, ht]

/-! ## Segments in their places -/

/-- What the search knows of a segment that begins at byte `start` and is followed by `rest`. -/
def Segment.Placed (tokens : List Token) (start : Nat) (rest : List Char) : Segment → Prop
  | plain c => ∀ d, IsDecomposition tokens (c :: rest) d → d.text = []
  | found o => o.start = start ∧ o.text ≠ [] ∧ IsFirst tokens (o.text ++ rest) ⟨o.parts, rest⟩

/-- One step of the search: the segment is in its place, and the search goes on behind it. -/
theorem scan_eq_cons {tokens : List Token} {start : Nat} {text : List Char} {seg : Segment}
    {segs : List Segment} (h : scan tokens start text = seg :: segs) :
    seg.Placed tokens start (segs.flatMap Segment.text) ∧
      scan tokens (start + byteLength seg.text) (segs.flatMap Segment.text) = segs := by
  revert h
  fun_cases scan tokens start text with
  | case1 => rintro ⟨⟩
  | case2 c rest d hd ht =>
    rintro ⟨⟩
    have hf := isFirst_of_firstDecomposition hd
    rw [flatMap_text_scan]
    refine ⟨fun e he => ?_, by simp [Segment.text]⟩
    rw [hf.eq_of_text_eq_nil ht he, ht]
  | case3 c rest d hd ht =>
    rintro ⟨⟩
    have hf := isFirst_of_firstDecomposition hd
    rw [flatMap_text_scan]
    refine ⟨⟨rfl, ht, ?_⟩, rfl⟩
    show IsFirst tokens (d.text ++ d.rest) d
    rwa [append_of_firstDecomposition hd]
  | case4 c rest hd =>
    rintro ⟨⟩
    rw [flatMap_text_scan]
    exact ⟨fun e he => (firstDecomposition_eq_none_iff.1 hd e he).elim, by simp [Segment.text]⟩

/-- A run of the search: after any of its segments it is the search of what follows them. -/
theorem scan_eq_append {tokens : List Token} {start : Nat} {text : List Char}
    {pre post : List Segment} (h : scan tokens start text = pre ++ post) :
    scan tokens (start + byteLength (pre.flatMap Segment.text)) (post.flatMap Segment.text)
      = post := by
  induction pre generalizing start text with
  | nil =>
    have ht := flatMap_text_scan tokens start text
    rw [List.nil_append] at h
    rw [h] at ht
    simpa [ht] using h
  | cons seg pre ih =>
    have := ih (scan_eq_cons h).2
    rwa [List.flatMap_cons, byteLength_append, ← Nat.add_assoc]

theorem placed_of_scan_eq {tokens : List Token} {start : Nat} {text : List Char}
    {pre post : List Segment} {seg : Segment} (h : scan tokens start text = pre ++ seg :: post) :
    seg.Placed tokens (start + byteLength (pre.flatMap Segment.text))
      (post.flatMap Segment.text) :=
  (scan_eq_cons (scan_eq_append h)).1

/-- An occurrence in a text starts where what stands before it ends. -/
theorem place_of_scan_eq {tokens : List Token} {text : List Char} {pre post : List Segment}
    {o : Occurrence} (h : scan tokens 0 text = pre ++ .found o :: post) :
    o.start = byteLength (pre.flatMap Segment.text) ∧
      text = pre.flatMap Segment.text ++ o.text ++ post.flatMap Segment.text := by
  have hs := (placed_of_scan_eq h).1
  have ht := flatMap_text_scan tokens 0 text
  rw [h, List.flatMap_append, List.flatMap_cons, ← List.append_assoc] at ht
  rw [Nat.zero_add] at hs
  exact ⟨hs, ht.symm⟩

/-- A place in a text is between two segments of it or inside an occurrence. -/
theorem between_or_inside {segs : List Segment} {before after : List Char}
    (h : segs.flatMap Segment.text = before ++ after) :
    (∃ pre post, segs = pre ++ post ∧ pre.flatMap Segment.text = before ∧
        post.flatMap Segment.text = after) ∨
      ∃ (pre : List Segment) (o : Occurrence) (post : List Segment),
        segs = pre ++ .found o :: post ∧
        byteLength (pre.flatMap Segment.text) < byteLength before ∧
        byteLength before < byteLength (pre.flatMap Segment.text) + byteLength o.text := by
  induction segs generalizing before with
  | nil =>
    obtain ⟨rfl, rfl⟩ := List.append_eq_nil_iff.1 h.symm
    exact .inl ⟨[], [], rfl, rfl, rfl⟩
  | cons seg segs ih =>
    by_cases hb : before = []
    · subst hb
      exact .inl ⟨[], seg :: segs, rfl, rfl, h⟩
    rw [List.flatMap_cons] at h
    rcases List.append_eq_append_iff.1 h with ⟨more, rfl, h'⟩ | ⟨inner, hs, rfl⟩
    · -- the place is behind the first segment
      rcases ih h' with ⟨pre, post, rfl, rfl, rfl⟩ | ⟨pre, o, post, rfl, h₁, h₂⟩
      · exact .inl ⟨seg :: pre, post, rfl, rfl, rfl⟩
      · refine .inr ⟨seg :: pre, o, post, rfl, ?_, ?_⟩ <;>
          simp only [List.flatMap_cons, byteLength_append] <;> omega
    · -- the place is in the first segment, or at its end
      by_cases hi : inner = []
      · subst hi
        exact .inl ⟨[seg], segs, rfl, by simpa using hs, rfl⟩
      cases seg with
      | plain c =>
        have h₁ := List.length_pos_iff.2 hb
        have h₂ := List.length_pos_iff.2 hi
        have := congrArg List.length hs
        simp only [Segment.text, List.length_singleton, List.length_append] at this
        omega
      | found o =>
        have h₁ := byteLength_pos hb
        have h₂ := byteLength_pos hi
        have := congrArg byteLength hs
        simp only [Segment.text, byteLength_append] at this
        exact .inr ⟨[], o, segs, rfl, by simpa using h₁, by simp; omega⟩

/-! ## Groups -/

/-- The groups of parts cut out of a text what the tags among them took. -/
theorem map_slice_groupSpans (before : List Char) (parts : List Part) (behind : List Char) :
    (groupSpans (byteLength before) parts).map
        (Option.map (·.slice (before ++ parts.flatMap Part.text ++ behind))) =
      parts.filterMap fun p => p.token.tag?.map fun _ => p.taken := by
  induction parts generalizing before with
  | nil => rfl
  | cons p ps ih =>
    -- the induction moves what the first part took to what stands before
    have ih := ih (before ++ p.text)
    have hs := slice_between before p.text (ps.flatMap Part.text ++ behind)
    rw [byteLength_append] at ih
    simp only [List.flatMap_cons, List.append_assoc] at ih hs ⊢
    unfold groupSpans
    cases ht : p.token with
    | literal c =>
      have htag : p.token.tag? = none := by rw [ht]; rfl
      simp only [List.filterMap_cons, htag, Option.map_none]
      exact ih
    | tag t =>
      have htag : p.token.tag? = some t := by rw [ht]; rfl
      simp only [List.filterMap_cons, htag, Option.map_some, List.map_cons]
      refine congrArg₂ _ ?_ ih
      cases hp : p.taken with
      | none => rfl
      | some w =>
        have hw : p.text = w := by simp [Part.text, hp]
        rw [Option.map_some, Option.map_some, hs, hw]

/-! ## Matches -/

theorem mem_findMatches_iff {tokens : List Token} {text : List Char} {m : Match} :
    m ∈ findMatches tokens text ↔
      ∃ (pre : List Segment) (o : Occurrence) (post : List Segment),
        scan tokens 0 text = pre ++ .found o :: post ∧ m = o.toMatch := by
  unfold findMatches
  rw [List.mem_filterMap]
  constructor
  · rintro ⟨seg, hs, hm⟩
    cases seg with
    | plain c => cases hm
    | found o =>
      cases hm
      obtain ⟨pre, post, h⟩ := List.append_of_mem hs
      exact ⟨pre, o, post, h, rfl⟩
  · rintro ⟨pre, o, post, h, rfl⟩
    exact ⟨.found o, by simp [h], rfl⟩

/-- The place of a match: what stands before it, and the decomposition that it shows. -/
theorem place_of_mem_findMatches {tokens : List Token} {text : List Char} {m : Match}
    (hm : m ∈ findMatches tokens text) :
    ∃ before d, text = before ++ d.text ++ d.rest ∧ d.text ≠ [] ∧
      IsFirst tokens (d.text ++ d.rest) d ∧
      m = (⟨byteLength before, d.parts⟩ : Occurrence).toMatch := by
  obtain ⟨pre, o, post, h, rfl⟩ := mem_findMatches_iff.1 hm
  obtain ⟨-, hne, hf⟩ := placed_of_scan_eq h
  obtain ⟨hs, ht⟩ := place_of_scan_eq h
  refine ⟨pre.flatMap Segment.text, ⟨o.parts, post.flatMap Segment.text⟩, ht, hne, hf, ?_⟩
  rw [← hs]

theorem start_le_of_mem_scan {tokens : List Token} {start : Nat} {text : List Char}
    {o : Occurrence} (h : .found o ∈ scan tokens start text) : start ≤ o.start := by
  obtain ⟨pre, post, h⟩ := List.append_of_mem h
  have := (placed_of_scan_eq h).1
  omega

/-- Occurrences follow each other without overlap. -/
theorem pairwise_scan (tokens : List Token) (start : Nat) (text : List Char) :
    (scan tokens start text).Pairwise fun a b => ∀ o o', a = .found o → b = .found o' →
      o.span.stop ≤ o'.span.start := by
  induction h : scan tokens start text generalizing start text with
  | nil => exact .nil
  | cons seg segs ih =>
    obtain ⟨hp, hs⟩ := scan_eq_cons h
    refine List.pairwise_cons.2 ⟨?_, ih _ _ hs⟩
    rintro b hb o o' rfl rfl
    rw [← hs] at hb
    have hle := start_le_of_mem_scan hb
    rw [← hp.1] at hle
    exact hle

theorem pairwise_findMatches (tokens : List Token) (text : List Char) :
    (findMatches tokens text).Pairwise fun m n => m.span.stop ≤ n.span.start := by
  unfold findMatches
  rw [List.pairwise_filterMap]
  apply (pairwise_scan tokens 0 text).imp
  intro a b hab m hm n hn
  cases a with
  | plain c => cases hm
  | found o =>
    cases b with
    | plain c => cases hn
    | found o' =>
      cases hm
      cases hn
      exact hab o o' rfl rfl

/-- Outside of the matches no text can be taken. -/
theorem text_eq_nil_of_outside {tokens : List Token} {before after : List Char}
    (ho : ∀ m ∈ findMatches tokens (before ++ after),
      ¬ (m.span.start ≤ byteLength before ∧ byteLength before < m.span.stop))
    {d : Decomposition} (hd : IsDecomposition tokens after d) : d.text = [] := by
  have hm : ∀ {pre : List Segment} {o : Occurrence} {post : List Segment},
      scan tokens 0 (before ++ after) = pre ++ .found o :: post →
      byteLength (pre.flatMap Segment.text) ≤ byteLength before →
      byteLength before < byteLength (pre.flatMap Segment.text) + byteLength o.text → False := by
    intro pre o post h h₁ h₂
    have hs := (place_of_scan_eq h).1
    have hm : o.toMatch ∈ findMatches tokens (before ++ after) :=
      mem_findMatches_iff.2 ⟨pre, o, post, h, rfl⟩
    have hstart : o.start ≤ byteLength before := by omega
    have hstop : byteLength before < o.start + byteLength o.text := by omega
    exact ho o.toMatch hm ⟨hstart, hstop⟩
  rcases between_or_inside (flatMap_text_scan tokens 0 (before ++ after)) with
    ⟨pre, post, h, rfl, rfl⟩ | ⟨pre, o, post, h, h₁, h₂⟩
  · cases post with
    | nil =>
      have := hd.text_eq
      exact (List.append_eq_nil_iff.1 this).1
    | cons seg post =>
      -- the place is the start of a segment, and an occurrence there would cover it
      have hp := placed_of_scan_eq h
      cases seg with
      | plain c => exact hp d hd
      | found o => exact (hm h le_rfl (by have := byteLength_pos hp.2.1; omega)).elim
  · exact (hm h h₁.le h₂).elim

/-! ## Leftmost-first matching -/

/-- The matches of a converter in a text. Each is, with its span and its groups, the first
decomposition at its start. No place outside of them has a decomposition that takes text. They
are not empty and follow each other without overlap. -/
theorem find_leftmost_first (c : Converter) (text : List Char) :
    (∀ m ∈ c.find text, ∃ before d, text = before ++ d.text ++ d.rest ∧
      IsFirst c.input.tokens (d.text ++ d.rest) d ∧
      m.span = ⟨byteLength before, byteLength before + byteLength d.text⟩ ∧
      m.groups = groupSpans (byteLength before) d.parts ∧
      m.groups.map (Option.map (·.slice text)) =
        d.parts.filterMap fun p => p.token.tag?.map fun _ => p.taken) ∧
    (∀ before after, text = before ++ after →
      (∀ m ∈ c.find text,
        ¬ (m.span.start ≤ byteLength before ∧ byteLength before < m.span.stop)) →
      ∀ d, IsDecomposition c.input.tokens after d → d.text = []) ∧
    (∀ m ∈ c.find text, m.span.start < m.span.stop) ∧
    (c.find text).Pairwise fun m n => m.span.stop ≤ n.span.start := by
  refine ⟨fun m hm => ?_, ?_, fun m hm => ?_, pairwise_findMatches _ _⟩
  · obtain ⟨before, d, rfl, -, hf, rfl⟩ := place_of_mem_findMatches hm
    exact ⟨before, d, rfl, hf, rfl, rfl, map_slice_groupSpans before d.parts d.rest⟩
  · rintro before after rfl ho d hd
    exact text_eq_nil_of_outside ho hd
  · obtain ⟨before, d, -, hne, -, rfl⟩ := place_of_mem_findMatches hm
    exact Nat.lt_add_of_pos_right (byteLength_pos hne)

/-- Of the two ways to read three digits as two numbers, the match shows the one in which the
first number has two digits. -/
theorem find_leftmost_first_digits :
    let c : Converter := ⟨⟨"d1d1", by decide⟩, .compile "d1"⟩
    let m : Match := ⟨⟨0, 3⟩, [some ⟨0, 2⟩, some ⟨2, 3⟩]⟩
    m ∈ c.find ['1', '2', '3'] ∧
      ∃ before d, ['1', '2', '3'] = before ++ d.text ++ d.rest ∧
        IsFirst c.input.tokens (d.text ++ d.rest) d ∧
        m.span = ⟨byteLength before, byteLength before + byteLength d.text⟩ ∧
        m.groups = groupSpans (byteLength before) d.parts ∧
        m.groups.map (Option.map (·.slice ['1', '2', '3'])) =
          d.parts.filterMap fun p => p.token.tag?.map fun _ => p.taken := by
  intro c m
  have hd : firstDecomposition c.input.tokens ['1', '2', '3'] =
      some ⟨[⟨.tag .day, some ['1', '2']⟩, ⟨.tag .day, some ['3']⟩], []⟩ := by
    rw [firstDecomposition_eq]; decide
  have hm : m ∈ c.find ['1', '2', '3'] := by
    rw [Converter.find, findMatches, scan_of_text_ne_nil hd (by decide), scan_nil]
    decide
  exact ⟨hm, (find_leftmost_first c ['1', '2', '3']).1 m hm⟩

end Redate
