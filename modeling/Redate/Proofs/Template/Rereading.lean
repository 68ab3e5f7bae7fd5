/-
Dates written through a template and read back. What the slots write has their shapes, unless a
year has no four digits. What is read is what the template keeps of the date: the fields that it
mentions, and of the year at least the last two digits. This always names a day, since a leap day
stays one when the century is dropped.
-/
import Redate.Proofs.Template.Grammar

namespace Redate

/-! ## Written numbers and names -/

theorem nameOfMonth_mem (l : NameLength) {month : Nat} (h : 1 ≤ month ∧ month ≤ 12) :
    nameOfMonth l month ∈ monthNames l := by
  have hl := length_monthNames l
  unfold nameOfMonth
  rw [List.getD_eq_getElem _ _ (by omega)]
  exact List.getElem_mem _

theorem monthNumber_nameOfMonth (l : NameLength) {month : Nat} (h : 1 ≤ month ∧ month ≤ 12) :
    monthNumber l (nameOfMonth l month) = month := by
  have hall : ∀ l, ∀ m < 12, monthNumber l (nameOfMonth l (m + 1)) = m + 1 := by
    intro l
    cases l <;> decide
  obtain ⟨m, rfl⟩ : ∃ m, month = m + 1 := ⟨month - 1, by omega⟩
  exact hall l m (by omega)

/-- Numbers up to 99 are written with two digits, or with one that is not zero. -/
theorem digits_or_nonzeroDigit_padded {n : Nat} (h₁ : 1 ≤ n) (h : n < 100) :
    Digits 2 (padded 1 n) ∨ NonzeroDigit (padded 1 n) := by
  by_cases hn : n < 10
  · exact .inr (nonzeroDigit_padded h₁ hn)
  · exact .inl (digits_padded_one (by omega) h)

theorem yearText_eq {y : Int} (h : 0 ≤ y ∧ y ≤ 9999) : yearText y = padded 4 y.natAbs :=
  if_pos h

theorem yearText_of_sign {y : Int} (h : ¬ (0 ≤ y ∧ y ≤ 9999)) :
    ∃ sign rest, yearText y = sign :: rest ∧ ¬ sign.isDigit := by
  refine ⟨if y < 0 then '-' else '+', _, if_neg h, ?_⟩
  split <;> decide

theorem delimiter_notMem_yearText (y : Int) : Template.delimiter ∉ yearText y := by
  have hp : ∀ n, Template.delimiter ∉ padded 4 n := fun n h =>
    absurd (isDigit_of_mem_padded h) (by decide)
  unfold yearText
  split
  · exact hp _
  · rw [List.mem_cons, not_or]
    refine ⟨?_, hp _⟩
    split <;> decide

/-! ## What slots write -/

/-- The three parts of a date. -/
inductive Kind
  | year
  | month
  | day
  deriving DecidableEq

namespace Slot

/-- What a slot tells of a date. -/
def kind : Slot → Kind
  | year | shortYear => .year
  | month | paddedMonth | monthName | shortMonthName => .month
  | day | paddedDay => .day

/-- The year that a slot keeps; two digits keep the one from 1969 to 2068 that ends in them. -/
def yearOf (d : Date) : Slot → Int
  | shortYear => 1969 + (d.year - 69) % 100
  | _ => d.year

theorem yearIn_eq_none {s : Slot} (h : s.kind ≠ .year) (w : List Char) : s.yearIn w = none := by
  cases s <;> first | rfl | exact absurd rfl h

theorem monthIn_eq_none {s : Slot} (h : s.kind ≠ .month) (w : List Char) : s.monthIn w = none := by
  cases s <;> first | rfl | exact absurd rfl h

theorem dayIn_eq_none {s : Slot} (h : s.kind ≠ .day) (w : List Char) : s.dayIn w = none := by
  cases s <;> first | rfl | exact absurd rfl h

variable {d : Date} {s : Slot}

/-- What a slot writes is of its shape, if four digits are enough for the year. -/
theorem fits_render (hy : s = .year → 0 ≤ d.year ∧ d.year ≤ 9999) : s.Fits (s.render d) := by
  have hm := d.month_bounds
  have hd := d.day_bounds
  cases s with
  | year =>
    have hy := hy rfl
    show Digits 4 (yearText d.year)
    rw [yearText_eq hy]
    exact digits_padded (by decide) (by omega)
  | shortYear => exact digits_padded (by decide) (by omega)
  | paddedMonth => exact digits_padded (by decide) (by omega)
  | paddedDay => exact digits_padded (by decide) (by omega)
  | month =>
    exact (digits_or_nonzeroDigit_padded hm.1 (by omega)).symm.imp_left NonzeroDigit.digits
  | day =>
    exact (digits_or_nonzeroDigit_padded hd.1 (by omega)).symm.imp_left NonzeroDigit.digits
  | shortMonthName => exact ⟨_, nameOfMonth_mem .short hm, rfl⟩
  | monthName => exact ⟨_, nameOfMonth_mem .full hm, rfl⟩

theorem yearIn_render (hy : s = .year → 0 ≤ d.year ∧ d.year ≤ 9999) :
    s.yearIn (s.render d) = if s.kind == .year then some (s.yearOf d) else none := by
  cases s with
  | year =>
    have hy := hy rfl
    show some (digitsValue (yearText d.year) : Int) = some d.year
    rw [yearText_eq hy, digitsValue_padded]
    congr 1
    omega
  | shortYear =>
    have hv : digitsValue (shortYear.render d) = (d.year % 100).toNat := digitsValue_padded _ _
    rw [yearIn, hv]
    show some _ = some (1969 + (d.year - 69) % 100)
    congr 1
    split <;> omega
  | _ => rfl

/-- Two digits tell the years from 1969 to 2068. -/
theorem yearOf_eq (h : s = .year ∨ 1969 ≤ d.year ∧ d.year ≤ 2068) : s.yearOf d = d.year := by
  cases s with
  | shortYear =>
    have := h.resolve_left (by rintro ⟨⟩)
    show 1969 + (d.year - 69) % 100 = d.year
    omega
  | _ => rfl

theorem monthIn_render :
    s.monthIn (s.render d) = if s.kind == .month then some d.month else none := by
  cases s with
  | month | paddedMonth => exact congrArg some (digitsValue_padded _ _)
  | monthName | shortMonthName =>
    exact congrArg some (monthNumber_nameOfMonth _ d.month_bounds)
  | _ => rfl

theorem dayIn_render : s.dayIn (s.render d) = if s.kind == .day then some d.day else none := by
  cases s with
  | day | paddedDay => exact congrArg some (digitsValue_padded _ _)
  | _ => rfl

end Slot

namespace Template

/-! ## The slots of a template -/

/-- The slot of an item, if it is one. -/
def Item.slot? : Item → Option Slot
  | .slot s => some s
  | .literal _ => none

/-- The slots among the items. -/
def slots (t : Template) : List Slot :=
  t.filterMap Item.slot?

theorem mem_slots_iff {t : Template} {s : Slot} : s ∈ t.slots ↔ .slot s ∈ t := by
  rw [slots, List.mem_filterMap]
  constructor
  · rintro ⟨i, hi, hs⟩
    cases i with
    | slot u => cases hs; exact hi
    | literal c => cases hs
  · exact fun h => ⟨_, h, rfl⟩

/-- The template has a slot of this kind. -/
def Mentions (t : Template) (k : Kind) : Prop :=
  ∃ s, .slot s ∈ t ∧ s.kind = k

/-- The last slot of a kind, the one that counts. -/
def lastSlot? (t : Template) (k : Kind) : Option Slot :=
  (t.slots.filter (·.kind == k)).getLast?

theorem lastSlot?_eq_none_iff {t : Template} {k : Kind} :
    t.lastSlot? k = none ↔ ¬ t.Mentions k := by
  rw [lastSlot?, List.getLast?_eq_none_iff, List.filter_eq_nil_iff]
  simp only [mem_slots_iff, beq_iff_eq, Mentions]
  push Not
  rfl

theorem exists_lastSlot? {t : Template} {k : Kind} (h : t.Mentions k) :
    ∃ s, t.lastSlot? k = some s :=
  Option.ne_none_iff_exists'.1 fun hn => lastSlot?_eq_none_iff.1 hn h

/-- If a value is read from the slots of a kind and from no others, the last one is the value at
the last of these slots. -/
theorem getLast?_filterMap_slots {α : Type} {t : Template} {k : Kind} {f : Slot → Option α}
    {g : Slot → α} (h : ∀ s ∈ t.slots, f s = if s.kind == k then some (g s) else none) :
    (t.slots.filterMap f).getLast? = (t.lastSlot? k).map g := by
  rw [List.filterMap_congr h, ← List.filterMap_filter (f := fun s => some (g s)),
    List.filterMap_eq_map', List.getLast?_map, lastSlot?]

/-! ## What a template keeps of a date -/

/-- The fields that are read from what the template writes. -/
def keptFields (t : Template) (d : Date) : Fields where
  year := ((t.lastSlot? .year).map fun s => s.yearOf d).getD 0
  month := ((t.lastSlot? .month).map fun _ => d.month).getD 1
  day := ((t.lastSlot? .day).map fun _ => d.day).getD 1

/-- What is left of a date that was written through a template and read back. -/
structure Keeps (t : Template) (d kept : Date) : Prop where
  month : t.Mentions .month → kept.month = d.month
  no_month : ¬ t.Mentions .month → kept.month = 1
  day : t.Mentions .day → kept.day = d.day
  no_day : ¬ t.Mentions .day → kept.day = 1
  year : t.lastSlot? .year = some .year → kept.year = d.year
  shortYear : t.lastSlot? .year = some .shortYear →
    (1969 ≤ kept.year ∧ kept.year ≤ 2068) ∧ kept.year % 100 = d.year % 100
  no_year : ¬ t.Mentions .year → kept.year = 0

theorem Keeps.of_fields {t : Template} {d kept : Date}
    (hy : kept.year = (t.keptFields d).year) (hm : kept.month = (t.keptFields d).month)
    (hd : kept.day = (t.keptFields d).day) : t.Keeps d kept := by
  unfold keptFields at hy hm hd
  constructor
  case month =>
    intro h
    obtain ⟨s, hs⟩ := exists_lastSlot? h
    rw [hm, hs]; rfl
  case no_month =>
    intro h
    rw [hm, lastSlot?_eq_none_iff.2 h]; rfl
  case day =>
    intro h
    obtain ⟨s, hs⟩ := exists_lastSlot? h
    rw [hd, hs]; rfl
  case no_day =>
    intro h
    rw [hd, lastSlot?_eq_none_iff.2 h]; rfl
  case year =>
    intro h
    rw [hy, h]; rfl
  case shortYear =>
    intro h
    have hy : kept.year = 1969 + (d.year - 69) % 100 := by rw [hy, h]; rfl
    omega
  case no_year =>
    intro h
    rw [hy, lastSlot?_eq_none_iff.2 h]; rfl

/-! ## What is kept names a day -/

theorem isLeapYear_iff {y : Int} :
    isLeapYear y = true ↔ y % 4 = 0 ∧ (y % 100 ≠ 0 ∨ y % 400 = 0) := by
  simp [isLeapYear]

theorem daysInMonth_le_of_isLeapYear {y y' : Int} (h : isLeapYear y → isLeapYear y') (m : Nat) :
    daysInMonth y m ≤ daysInMonth y' m := by
  fun_cases daysInMonth y m <;> simp only [daysInMonth] <;> (try split) <;> simp_all

/-- A leap year stays one without its century, for from 1969 to 2068 the only year that 100
divides is 2000. -/
theorem isLeapYear_yearOf {d : Date} (s : Slot) (h : isLeapYear d.year) :
    isLeapYear (s.yearOf d) := by
  cases s with
  | shortYear =>
    show isLeapYear (1969 + (d.year - 69) % 100) = true
    rw [isLeapYear_iff] at h ⊢
    omega
  | _ => exact h

theorem isLeapYear_keptFields {t : Template} {d : Date} (h : isLeapYear d.year) :
    isLeapYear (t.keptFields d).year := by
  unfold keptFields
  cases t.lastSlot? .year with
  | none => rfl
  | some s => exact isLeapYear_yearOf s h

theorem namesDay_keptFields (t : Template) (d : Date) : NamesDay (t.keptFields d) := by
  obtain ⟨-, h₁, hd⟩ := d.isDay
  have hm : (t.keptFields d).month = 1 ∨ (t.keptFields d).month = d.month := by
    unfold keptFields
    cases t.lastSlot? .month <;> simp
  have hn : (t.keptFields d).day = 1 ∨ (t.keptFields d).day = d.day := by
    unfold keptFields
    cases t.lastSlot? .day <;> simp
  have hle : (t.keptFields d).day ≤ d.day := by omega
  refine ⟨by omega, ?_⟩
  rcases hm with hm | hm
  · rw [hm]
    exact hle.trans d.day_bounds.2
  · rw [hm]
    exact hle.trans (hd.trans (daysInMonth_le_of_isLeapYear isLeapYear_keptFields _))

/-! ## Reading back -/

theorem flatten_render (t : Template) (d : Date) :
    (t.map (Item.render d)).flatten = t.render d :=
  List.flatMap_def.symm

section Written

variable {t : Template} {d : Date}

theorem Item.fits_render {i : Item} (hy : i = .slot .year → 0 ≤ d.year ∧ d.year ≤ 9999) :
    i.Fits (i.render d) := by
  cases i with
  | slot s => exact Slot.fits_render fun h => hy (congrArg Item.slot h)
  | literal c => rfl

theorem fits_render (hy : .slot .year ∈ t → 0 ≤ d.year ∧ d.year ≤ 9999) :
    List.Forall₂ Item.Fits t (t.map (Item.render d)) := by
  rw [List.forall₂_map_right_iff, List.forall₂_same]
  exact fun i hi => Item.fits_render (by rintro rfl; exact hy hi)

theorem readings_render (t : Template) (d : Date) :
    t.readings (t.map (Item.render d)) = t.slots.map fun s => (s, s.render d) := by
  induction t with
  | nil => rfl
  | cons i t ih =>
    cases i with
    | slot s => exact congrArg _ ih
    | literal c => exact ih

theorem lastOf_slots (hy : .slot .year ∈ t → 0 ≤ d.year ∧ d.year ≤ 9999) :
    Fields.lastOf (t.slots.map fun s => (s, s.render d)) {} = t.keptFields d := by
  have hyear : ∀ s ∈ t.slots, s.yearIn (s.render d) =
      if s.kind == .year then some (s.yearOf d) else none :=
    fun s hs => Slot.yearIn_render (by rintro rfl; exact hy (mem_slots_iff.1 hs))
  unfold Fields.lastOf keptFields
  simp only [List.filterMap_map, Function.comp_def]
  rw [getLast?_filterMap_slots hyear, getLast?_filterMap_slots fun s _ => Slot.monthIn_render,
    getLast?_filterMap_slots fun s _ => Slot.dayIn_render]

theorem lastOf_render (hy : .slot .year ∈ t → 0 ≤ d.year ∧ d.year ≤ 9999) :
    Fields.lastOf (t.readings (t.map (Item.render d))) {} = t.keptFields d := by
  rw [readings_render, lastOf_slots hy]

theorem parse_render_of_year_bounds (ht : t.Separated)
    (hy : .slot .year ∈ t → 0 ≤ d.year ∧ d.year ≤ 9999) :
    ∃ kept, t.parse (t.render d) = .ok kept ∧ t.Keeps d kept := by
  have hf := fits_render hy
  have hl := lastOf_render hy
  have hb : 0 ≤ (t.keptFields d).year ∧ (t.keptFields d).year ≤ 9999 :=
    hl ▸ year_bounds_of_fits (fits_of_mem_readings hf)
  obtain ⟨kept, hk, -⟩ := (toDate_of_namesDay hb).1 (namesDay_keptFields t d)
  have hs : t.Spells (t.render d) kept := by
    refine ⟨_, hf, flatten_render t d, ?_⟩
    rw [hl]
    exact hk
  exact ⟨kept, hs.parse_eq ht, .of_fields hk.1 hk.2.1 hk.2.2⟩

theorem take_yearText (hy : ¬ (0 ≤ d.year ∧ d.year ≤ 9999)) (rest : List Char) :
    Slot.year.take (yearText d.year ++ rest) = none := by
  obtain ⟨sign, w, hw, hs⟩ := yearText_of_sign hy
  refine take_eq_none_iff.2 fun v hv hd => ?_
  obtain ⟨x, v, rfl⟩ := List.exists_cons_of_ne_nil (Slot.Fits.ne_nil hd)
  obtain ⟨r, hr⟩ := hv
  rw [hw] at hr
  obtain ⟨rfl, -⟩ := List.cons.inj hr
  exact hs (hd.2 x List.mem_cons_self)

/-- A year with a sign is not read. -/
theorem parse_render_of_sign (ht : t.Separated) (hm : .slot .year ∈ t)
    (hy : ¬ (0 ≤ d.year ∧ d.year ≤ 9999)) :
    ∃ value, yearText d.year <+: value ∧
      t.parse (t.render d) = .error (.badValue .year value) := by
  obtain ⟨sign, w, hw, hs⟩ := yearText_of_sign hy
  -- nothing stops the walk before the first year of four digits, and the sign stops it there
  obtain ⟨front, behind, rfl, hn⟩ := List.eq_append_cons_of_mem hm
  have hf := fits_render (t := front) (d := d) fun h => absurd h hn
  have hk : Takes front (front.map (Item.render d)) (yearText d.year ++ render behind d) := by
    refine takes_of_fits hf ht.left_of_append ?_
    rw [hw]
    rintro x ⟨⟩
    exact hs
  have hwalk := walk_of_takes (u := .slot .year :: behind) hk {}
  rw [flatten_render, walk_slot (by simp [hw]), take_yearText hy,
    takeWhile_delimiter (delimiter_notMem_yearText _)] at hwalk
  refine ⟨yearText d.year ++ (render behind d).takeWhile (· != delimiter),
    List.prefix_append _ _, parse_of_walk_eq_error ?_⟩
  rw [render_append, render_cons]
  exact hwalk

end Written

/-- Dates read back what the template keeps of them, and this never fails, whatever is dropped
from the date. Only a year that has a sign cannot be read back with four digits, and this is
reported. -/
theorem parse_render (t : Template) (d : Date) (ht : t.Separated) :
    ((.slot .year ∈ t → 0 ≤ d.year ∧ d.year ≤ 9999) →
      ∃ kept, t.parse (t.render d) = .ok kept ∧ t.Keeps d kept) ∧
    (.slot .year ∈ t → ¬ (0 ≤ d.year ∧ d.year ≤ 9999) →
      ∃ value, yearText d.year <+: value ∧
        t.parse (t.render d) = .error (.badValue .year value)) :=
  ⟨parse_render_of_year_bounds ht, parse_render_of_sign ht⟩

/-- A leap day comes back as one without its century, and a year before year 0 is refused. -/
theorem parse_render_leap_day :
    let t := ofText ['%', 'b', '%', '-', 'd', ':', '%', 'y']
    let t' := ofText ['%', '-', 'd', '/', '%', 'Y']
    let d : Date := ⟨-4, 2, 29, by decide⟩
    (t.Separated ∧ ∃ kept, t.parse (t.render d) = .ok kept ∧ t.Keeps d kept) ∧
      t'.Separated ∧ ∃ value, yearText d.year <+: value ∧
        t'.parse (t'.render d) = .error (.badValue .year value) := by
  intro t t' d
  have ht : t.Separated := by decide
  have ht' : t'.Separated := by decide
  exact ⟨⟨ht, (parse_render t d ht).1 (by decide)⟩, ht',
    (parse_render t' d ht').2 (by decide) (by decide)⟩

end Template
end Redate
