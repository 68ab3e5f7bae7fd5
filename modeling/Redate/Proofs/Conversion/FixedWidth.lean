/-
Formats of fixed width, converted to themselves. The tags of such a format are numbers filled up
with zeros, and no two are of one kind, so that every number a match captures is a field of its
date and is written again as it was read. What is no date is left alone, and no text is changed.
-/
import Redate.Proofs.Conversion.Delimiter
import Redate.Proofs.Conversion.Reading
import Redate.Proofs.Conversion.Rereading

namespace Redate

open Template (parseFields)

/-! ## Formats -/

/-- All tags are numbers filled up with zeros, and no two of them are of one kind. -/
structure FixedWidth (tags : List Tag) : Prop where
  padded : ∀ t ∈ tags, t = .year ∨ t = .shortYear ∨ t = .paddedMonth ∨ t = .paddedDay
  once : (tags.map Tag.kind?).Nodup

/-- The fields that such a format captures are of different kinds. -/
theorem FixedWidth.nodup_kinds {captures : List (Tag × List Char)}
    (hf : FixedWidth (captures.map Prod.fst)) :
    ((captures.filterMap fieldOf).map fun q => q.1.kind).Nodup := by
  have h : (captures.filterMap fieldOf).map (fun q => q.1.kind) =
      ((captures.map Prod.fst).map Tag.kind?).filterMap id := by
    rw [List.map_filterMap, List.filterMap_map, List.filterMap_map]
    refine List.filterMap_congr fun p _ => ?_
    simp [fieldOf, Tag.kind?, Function.comp_def]
  rw [h]
  refine hf.once.filterMap ?_
  rintro a b k ⟨⟩ ⟨⟩
  rfl

/-! ## The only field of a kind -/

section Read

variable {readings : List (Slot × List Char)} (hn : (readings.map fun p => p.1.kind).Nodup)
  {s : Slot} {w : List Char} (hm : (s, w) ∈ readings)
include hn hm

/-- Of several readings of different kinds, the one of a kind is the last of it. -/
theorem getLast?_filterMap_of_nodup {α : Type} {f : Slot → List Char → Option α}
    (hf : ∀ u : Slot, u.kind ≠ s.kind → ∀ v, f u v = none) :
    (readings.filterMap fun p => f p.1 p.2).getLast? = f s w := by
  obtain ⟨pre, post, rfl⟩ := List.append_of_mem hm
  rw [List.map_append, List.map_cons, List.nodup_append] at hn
  obtain ⟨-, hpost, hpre⟩ := hn
  -- what stands around it is of other kinds and has nothing to tell
  have hpre : (pre.filterMap fun p => f p.1 p.2) = [] :=
    List.filterMap_eq_nil_iff.2 fun p hp => hf _ (hpre _ (List.mem_map_of_mem hp) _ (by simp)) _
  have hpost : (post.filterMap fun p => f p.1 p.2) = [] :=
    List.filterMap_eq_nil_iff.2 fun p hp => hf _ (fun hk =>
      (List.nodup_cons.1 hpost).1 (List.mem_map.2 ⟨p, hp, hk⟩)) _
  rw [List.filterMap_append, List.filterMap_cons, hpre, hpost]
  cases f s w <;> rfl

/-- A number that was read from a padded slot is written again from the date. -/
theorem render_eq_of_reading {d : Date}
    (hd : let f := Template.Fields.lastOf readings {}
      d.year = f.year ∧ d.month = f.month ∧ d.day = f.day)
    (hs : s = .year ∨ s = .shortYear ∨ s = .paddedMonth ∨ s = .paddedDay) (hw : s.Fits w) :
    s.render d = w := by
  obtain ⟨hy, hmo, hda⟩ := hd
  unfold Template.Fields.lastOf at hy hmo hda
  rcases hs with rfl | rfl | rfl | rfl
  · have hw : Digits 4 w := hw
    have hv := digitsValue_lt hw
    have hy : d.year = digitsValue w := by
      rw [hy, getLast?_filterMap_of_nodup hn hm fun _ => Slot.yearIn_eq_none]
      rfl
    show yearText d.year = w
    rw [yearText_eq (by omega), hy, Int.natAbs_natCast, padded_digitsValue (by decide) hw]
  · have hw : Digits 2 w := hw
    have hv := digitsValue_lt hw
    have hy : d.year = if 69 ≤ digitsValue w then 1900 + (digitsValue w : Int)
        else 2000 + (digitsValue w : Int) := by
      rw [hy, getLast?_filterMap_of_nodup hn hm fun _ => Slot.yearIn_eq_none]
      rfl
    -- the century is dropped again
    have hmod : (d.year % 100).toNat = digitsValue w := by
      rw [hy]
      split <;> omega
    show padded 2 (d.year % 100).toNat = w
    rw [hmod, padded_digitsValue (by decide) hw]
  · have hmo : d.month = digitsValue w := by
      rw [hmo, getLast?_filterMap_of_nodup hn hm fun _ => Slot.monthIn_eq_none]
      rfl
    show padded 2 d.month = w
    rw [hmo, padded_digitsValue (by decide) hw]
  · have hda : d.day = digitsValue w := by
      rw [hda, getLast?_filterMap_of_nodup hn hm fun _ => Slot.dayIn_eq_none]
      rfl
    show padded 2 d.day = w
    rw [hda, padded_digitsValue (by decide) hw]

end Read

/-! ## What is read is written again -/

/-- The tags that may stand in such a format have padded slots. -/
theorem slot?_of_padded {t : Tag}
    (h : t = .year ∨ t = .shortYear ∨ t = .paddedMonth ∨ t = .paddedDay) :
    ∃ s, t.slot? = some s ∧ (s = .year ∨ s = .shortYear ∨ s = .paddedMonth ∨ s = .paddedDay) := by
  rcases h with rfl | rfl | rfl | rfl <;> exact ⟨_, rfl, by decide⟩

/-- The date that a decomposition stands for is written as the text that was taken. -/
theorem flatMap_render_eq_text {tokens : List Token} {text rest : List Char} {parts : List Part}
    (hf : FixedWidth (tokens.filterMap Token.tag?))
    (hd : IsDecomposition tokens text ⟨parts, rest⟩) {start : Nat} {d : Date}
    (hp : parseFields (⟨start, parts⟩ : Occurrence).fields = .ok d) :
    tokens.flatMap (Token.render d) = (⟨start, parts⟩ : Occurrence).text := by
  have ht := hd.tokens_eq
  rw [fields_eq, Template.parseFields_eq_ok_iff] at hp
  rw [← ht, ← map_fst_tagTexts] at hf
  rw [Occurrence.text, ← ht, List.flatMap_map]
  refine List.flatMap_congr fun p hpm => ?_
  have hfit := hd.fits p hpm
  obtain ⟨token, taken⟩ := p
  cases token with
  | literal c => cases hfit; rfl
  | tag t =>
    have hm : (t, taken.getD []) ∈ tagTexts parts := List.mem_filterMap.2 ⟨_, hpm, rfl⟩
    have hpad := hf.padded t (List.mem_map.2 ⟨_, hm, rfl⟩)
    obtain ⟨s, hs, hspad⟩ := slot?_of_padded hpad
    have hfield : (s, taken.getD []) ∈ (tagTexts parts).filterMap fieldOf :=
      List.mem_filterMap.2 ⟨_, hm, by rw [fieldOf, hs]; rfl⟩
    rw [Token.render, Tag.render, hs]
    exact render_eq_of_reading hf.nodup_kinds hfield hp.2 hspad (hp.1 _ hfield)

/-- A format of fixed width, converted to itself, leaves every text as it is. -/
theorem convert_self {f : InputFormat} (hf : FixedWidth f.tags) :
    ∃ c, Converter.compile f.text f.text = .ok c ∧ ∀ text, c.convert text = text := by
  refine ⟨⟨f, .compile f.text⟩, Converter.compile_eq_ok_iff.2 ⟨rfl, rfl⟩, fun text => ?_⟩
  show ((scan f.tokens 0 text).map Outcome.ofSegment).flatMap _ = text
  rw [List.flatMap_map]
  -- every segment is written as it stands, an occurrence from its date or as it is
  refine Eq.trans (List.flatMap_congr fun seg hseg => ?_) (flatMap_text_scan f.tokens 0 text)
  cases seg with
  | plain c => rfl
  | found o =>
    obtain ⟨pre, post, hs⟩ := List.append_of_mem hseg
    obtain ⟨-, -, hfirst⟩ := placed_of_scan_eq hs
    cases hp : parseFields o.fields with
    | ok d =>
      rw [Outcome.ofSegment_of_ok hp]
      refine (OutputFormat.render_eq _ d).trans ?_
      exact flatMap_render_eq_text hf hfirst.isDecomposition hp
    | error e =>
      rw [Outcome.ofSegment_of_error hp]
      rfl

/-- A day and a month that run together, and the year without its century behind a hyphen. -/
theorem convert_self_digits :
    let f : InputFormat := ⟨"d2m2-y2", by decide⟩
    FixedWidth f.tags ∧
      ∃ c, Converter.compile f.text f.text = .ok c ∧ ∀ text, c.convert text = text := by
  intro f
  have hf : FixedWidth f.tags := ⟨by decide, by decide⟩
  exact ⟨hf, convert_self hf⟩

end Redate
