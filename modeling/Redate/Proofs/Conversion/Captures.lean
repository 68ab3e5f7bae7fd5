/-
What a match captures: the tags of the format, each with the text of its group. Reading the date
of a match is reading its captures, and the captures of a match that was found are the parts of
the decomposition behind it.
-/
import Redate.Proofs.Matching.Search

namespace Redate

open Template (parseFields)

/-- A captured text as a field of a date, if its tag carries one. -/
def fieldOf (p : Tag × List Char) : Option (Slot × List Char) :=
  p.1.slot?.map fun s => (s, p.2)

namespace Converter

/-- The tags of the input format with what the groups of a match cut out of a text, in order, as
far as both go; a group that is left out counts as empty text. -/
def captures (c : Converter) (text : List Char) (m : Match) : List (Tag × List Char) :=
  c.input.tags.zip (m.groups.map fun g => (g.map (·.slice text)).getD [])

theorem parseMatch_eq (c : Converter) (text : List Char) (m : Match) :
    c.parseMatch text m = parseFields ((c.captures text m).filterMap fieldOf) := by
  unfold parseMatch capturedFields captures InputFormat.slots
  rw [List.zip_map_left, List.zip_map_right, List.filterMap_map, List.filterMap_map]
  rfl

end Converter

/-- What the tags among some parts took. -/
def tagTexts (parts : List Part) : List (Tag × List Char) :=
  parts.filterMap fun p => p.token.tag?.map fun t => (t, p.text)

theorem map_fst_tagTexts (parts : List Part) :
    (tagTexts parts).map Prod.fst = (parts.map Part.token).filterMap Token.tag? := by
  rw [tagTexts, List.map_filterMap, List.filterMap_map]
  simp only [Option.map_map, Function.comp_def, Option.map_id']

theorem zip_filterMap {α β γ τ : Type} (f : α → Option τ) (g : τ → β) (h : α → γ) (l : List α) :
    (l.filterMap fun a => (f a).map g).zip (l.filterMap fun a => (f a).map fun _ => h a) =
      l.filterMap fun a => (f a).map fun t => (g t, h a) := by
  induction l with
  | nil => rfl
  | cons a l ih => cases ha : f a <;> simp [ha, ih]

/-- A match at the place of a decomposition captures what its tags took. -/
theorem captures_of_place {c : Converter} {before : List Char} {d : Decomposition}
    (hd : d.parts.map Part.token = c.input.tokens) :
    c.captures (before ++ d.text ++ d.rest)
        (⟨byteLength before, d.parts⟩ : Occurrence).toMatch = tagTexts d.parts := by
  -- tags and groups are both read off the parts, so they pair up without loss
  have hg := map_slice_groupSpans before d.parts d.rest
  have ht : c.input.tags = d.parts.filterMap fun p => p.token.tag?.map id := by
    rw [InputFormat.tags, ← hd, List.filterMap_map]
    simp
  have hm := congrArg (List.map fun g : Option (List Char) => g.getD []) hg
  rw [List.map_map, List.map_filterMap] at hm
  simp only [Option.map_map] at hm
  unfold Converter.captures tagTexts
  rw [ht]
  refine (congrArg _ hm).trans ?_
  exact zip_filterMap (fun p : Part => p.token.tag?) id Part.text d.parts

theorem fields_eq (o : Occurrence) : o.fields = (tagTexts o.parts).filterMap fieldOf := by
  rw [tagTexts, List.filterMap_filterMap, Occurrence.fields]
  congr 1
  funext p
  cases p.token.tag? <;> rfl

/-- An occurrence in its place stands for the date of its match. -/
theorem parseMatch_toMatch {c : Converter} {text : List Char} {pre post : List Segment}
    {o : Occurrence} (h : scan c.input.tokens 0 text = pre ++ .found o :: post) :
    c.parseMatch text o.toMatch = parseFields o.fields ∧ o.span.slice text = o.text := by
  obtain ⟨-, -, hf⟩ := placed_of_scan_eq h
  obtain ⟨hs, ht⟩ := place_of_scan_eq h
  obtain ⟨start, parts⟩ := o
  obtain rfl : start = byteLength (pre.flatMap Segment.text) := hs
  constructor
  · have hc : c.captures text (⟨byteLength (pre.flatMap Segment.text), parts⟩ :
        Occurrence).toMatch = tagTexts parts := by
      rw [ht]
      exact captures_of_place (d := ⟨parts, post.flatMap Segment.text⟩)
        hf.isDecomposition.tokens_eq
    rw [Converter.parseMatch_eq, hc, fields_eq]
  · rw [ht]
    exact slice_between _ _ _

end Redate
