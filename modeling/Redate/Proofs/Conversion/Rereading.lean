/-
Written dates read back. Of several tags of a kind the last one counts, so a date that was written
reads as itself when its format tells year, month and day, and the last year tag tells the century
or the year is one that two digits tell.
-/
import Redate.Proofs.Conversion.Captures
import Redate.Proofs.Conversion.Delimiter
import Redate.Proofs.Format.Written

namespace Redate

open Template (parseFields)

/-! ## Kinds of tags -/

/-- What a tag tells of a date: what its slot tells, and an ordinal tells nothing. -/
def Tag.kind? (t : Tag) : Option Kind :=
  t.slot?.map Slot.kind

/-- The last tag of a kind, the one that counts. -/
def lastOfKind (k : Kind) (tags : List Tag) : Option Tag :=
  (tags.filter (·.kind? == some k)).getLast?

theorem lastOfKind_mem {k : Kind} {tags : List Tag} {t : Tag} (h : lastOfKind k tags = some t) :
    t ∈ tags ∧ t.kind? = some k := by
  simpa using List.mem_filter.1 (List.mem_of_getLast? h)

theorem exists_lastOfKind {k : Kind} {tags : List Tag} (h : ∃ t ∈ tags, t.kind? = some k) :
    ∃ t, lastOfKind k tags = some t := by
  obtain ⟨t, ht, hk⟩ := h
  apply Option.ne_none_iff_exists'.1
  intro hn
  have hf : t ∈ tags.filter (·.kind? == some k) := List.mem_filter.2 ⟨ht, by simpa using hk⟩
  rw [List.getLast?_eq_none_iff.1 hn] at hf
  cases hf

/-! ## Written fields read back -/

/-- The template of the tags' slots. -/
def slotTemplate (tags : List Tag) : Template :=
  (tags.filterMap Tag.slot?).map .slot

theorem slots_slotTemplate (tags : List Tag) :
    (slotTemplate tags).slots = tags.filterMap Tag.slot? := by
  rw [slotTemplate, Template.slots, List.filterMap_map]
  exact List.filterMap_some

/-- The slot of the last tag of a kind is the last slot of the kind. -/
theorem lastSlot?_slotTemplate {k : Kind} {tags : List Tag} {t : Tag}
    (ht : lastOfKind k tags = some t) :
    ∃ s, t.slot? = some s ∧ (slotTemplate tags).lastSlot? k = some s := by
  obtain ⟨s, hs, -⟩ := Option.map_eq_some_iff.1 (lastOfKind_mem ht).2
  obtain ⟨init, hi⟩ := List.getLast?_eq_some_iff.1 ht
  have hf : (slotTemplate tags).slots.filter (·.kind == k) =
      (tags.filter (·.kind? == some k)).filterMap Tag.slot? := by
    rw [slots_slotTemplate, List.filter_filterMap, List.filterMap_filter]
    refine List.filterMap_congr fun u _ => ?_
    cases hu : u.slot? <;> simp [Tag.kind?, hu, Option.filter]
  refine ⟨s, hs, ?_⟩
  rw [Template.lastSlot?, hf, hi, List.filterMap_append]
  simp [hs]

/-- What is written for the tags of a format is captured as what the slots write. -/
theorem fields_writtenParts (d : Date) (tokens : List Token) (start : Nat) :
    (⟨start, writtenParts d tokens⟩ : Occurrence).fields =
      (slotTemplate (tokens.filterMap Token.tag?)).slots.map fun s => (s, s.render d) := by
  rw [fields_eq, tagTexts, writtenParts, slots_slotTemplate]
  simp only [List.filterMap_map, List.filterMap_filterMap, List.map_filterMap]
  refine List.filterMap_congr fun t _ => ?_
  cases t with
  | literal c => rfl
  | tag t =>
    cases ht : t.slot? with
    | none => simp [Token.tag?, fieldOf, ht]
    | some s => simp [Token.tag?, fieldOf, ht, Token.render, Tag.render, Part.text]

/-- The tags tell the date: there are some of every kind, and two digits do for the year if the
last year tag has no more. -/
structure TellsDate (d : Date) (tags : List Tag) : Prop where
  kinds : ∀ k, ∃ t ∈ tags, t.kind? = some k
  year_bounds : 0 ≤ d.year ∧ d.year ≤ 9999
  last_year : lastOfKind .year tags = some .year ∨ 1969 ≤ d.year ∧ d.year ≤ 2068

theorem keptFields_slotTemplate {d : Date} {tags : List Tag} (h : TellsDate d tags) :
    (slotTemplate tags).keptFields d = ⟨d.year, d.month, d.day⟩ := by
  obtain ⟨y, hy⟩ := exists_lastOfKind (h.kinds .year)
  obtain ⟨m, hm⟩ := exists_lastOfKind (h.kinds .month)
  obtain ⟨n, hn⟩ := exists_lastOfKind (h.kinds .day)
  obtain ⟨s, hs, hls⟩ := lastSlot?_slotTemplate hy
  obtain ⟨_, -, hlm⟩ := lastSlot?_slotTemplate hm
  obtain ⟨_, -, hln⟩ := lastSlot?_slotTemplate hn
  have hyear : s.yearOf d = d.year := by
    refine Slot.yearOf_eq (h.last_year.imp_left fun hl => ?_)
    obtain rfl := Option.some.inj (hy.symm.trans hl)
    exact (Option.some.inj hs).symm
  simp [Template.keptFields, hls, hlm, hln, hyear]

/-- A written date reads back as itself. -/
theorem parseFields_written {d : Date} {tokens : List Token}
    (h : TellsDate d (tokens.filterMap Token.tag?)) (start : Nat) :
    parseFields (⟨start, writtenParts d tokens⟩ : Occurrence).fields = .ok d := by
  rw [fields_writtenParts, Template.parseFields_eq_ok_iff]
  constructor
  · intro p hp
    obtain ⟨s, -, rfl⟩ := List.mem_map.1 hp
    exact Slot.fits_render fun _ => h.year_bounds
  · rw [Template.lastOf_slots fun _ => h.year_bounds, keptFields_slotTemplate h]
    exact ⟨rfl, rfl, rfl⟩

end Redate
