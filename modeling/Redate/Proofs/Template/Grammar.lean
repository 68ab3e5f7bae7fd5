/-
The grammar of a template. A template stands for the texts that are made of one piece per item: a
literal character itself, and for a slot a text of its shape. Only such texts are read, each as the
date of the numbers in its pieces, of every kind the last; and all of them are read, unless a
number without leading zeros may run into a digit.
-/
import Redate.Proofs.Template.Slots

namespace Redate

/-! ## What a slot has taken -/

/-- The digits at the front, up to `most`, and what follows them. -/
theorem exists_digits_append (most : Nat) (text : List Char) :
    ∃ digits rest, text = digits ++ rest ∧ (text.take most).takeWhile Char.isDigit = digits ∧
      Digits digits.length digits ∧ digits.length ≤ most := by
  have hp : (text.take most).takeWhile Char.isDigit <+: text :=
    (List.takeWhile_prefix _).trans (List.take_prefix _ _)
  obtain ⟨rest, hr⟩ := hp
  refine ⟨_, rest, hr.symm, rfl, ⟨rfl, fun c => List.mem_takeWhile_imp⟩, ?_⟩
  exact (List.takeWhile_prefix _).length_le.trans (List.length_take_le _ _)

theorem digits_of_takeDigits {least most n : Nat} {text rest : List Char}
    (h : takeDigits least most text = some (n, rest)) :
    ∃ k w, (least ≤ k ∧ k ≤ most) ∧ Digits k w ∧ n = digitsValue w ∧ text = w ++ rest := by
  obtain ⟨digits, rest', rfl, hw, hd, hm⟩ := exists_digits_append most text
  unfold takeDigits at h
  simp only [hw, List.drop_left] at h
  split at h
  · cases h
  · next hl =>
    cases h
    exact ⟨_, digits, ⟨not_lt.1 hl, hm⟩, hd, rfl, rfl⟩

theorem namesMonth_of_takeMonthName {l : NameLength} {n : Nat} {text rest : List Char}
    (h : takeMonthName l text = some (n, rest)) :
    ∃ w, NamesMonth l w ∧ n = monthNumber l w ∧ text = w ++ rest := by
  obtain ⟨x, hx, hr⟩ := List.exists_of_findSome?_eq_some h
  obtain ⟨rest', hd, he⟩ := Option.map_eq_some_iff.1 hr
  cases he
  obtain ⟨w, hw, rfl⟩ := dropWord?_eq_some_iff.1 hd
  have hn : NamesMonth l w := ⟨x.1, List.fst_mem_of_mem_zipIdx hx, hw⟩
  -- the name is read as its number, and reading gives one number only
  obtain ⟨hm, -⟩ := Prod.mk.inj (Option.some.inj (h.symm.trans (takeMonthName_append hn rest)))
  exact ⟨w, hn, hm, rfl⟩

theorem NamesMonth.monthWord {l : NameLength} {w : List Char} (h : NamesMonth l w) :
    MonthWord l w := by
  obtain ⟨name, hn, hw⟩ := h
  exact ⟨name, hn, standsFor_of_map_toLower_eq hw⟩

namespace Slot

/-- What a slot takes is a text of its shape, and it reads the number that the text names. -/
theorem fits_of_take {s : Slot} {n : Nat} {text rest : List Char}
    (h : s.take text = some (n, rest)) :
    ∃ w, s.Fits w ∧ n = s.value w ∧ text = w ++ rest := by
  cases s with
  | year | shortYear | paddedMonth | paddedDay =>
    obtain ⟨k, w, hk, hw, rfl, rfl⟩ := digits_of_takeDigits h
    obtain rfl := le_antisymm hk.2 hk.1
    exact ⟨w, hw, rfl, rfl⟩
  | month | day =>
    obtain ⟨k, w, hk, hw, rfl, rfl⟩ := digits_of_takeDigits h
    obtain rfl | rfl : k = 1 ∨ k = 2 := by omega
    · exact ⟨w, .inl hw, rfl, rfl⟩
    · exact ⟨w, .inr hw, rfl, rfl⟩
  | shortMonthName | monthName => exact namesMonth_of_takeMonthName h

theorem Fits.ne_nil {s : Slot} {w : List Char} (h : s.Fits w) : w ≠ [] := by
  rintro rfl
  cases s with
  | year | shortYear | paddedMonth | paddedDay => exact absurd h.1 (by decide)
  | month | day => exact h.elim (fun h => absurd h.1 (by decide)) fun h => absurd h.1 (by decide)
  | shortMonthName | monthName =>
    obtain ⟨name, hn, hw⟩ := h
    obtain rfl : name = [] := by simpa using hw.symm
    exact absurd hn (by decide)

/-! ## Numbers by their kind -/

/-- The year that a text names in a slot; of two digits, 69 to 99 are in the 1900s and 0 to 68 in
the 2000s. -/
def yearIn : Slot → List Char → Option Int
  | year, w => some (digitsValue w)
  | shortYear, w =>
    some (if 69 ≤ digitsValue w then 1900 + digitsValue w else 2000 + digitsValue w)
  | _, _ => none

/-- The month that a text names in a slot. -/
def monthIn : Slot → List Char → Option Nat
  | month, w | paddedMonth, w => some (digitsValue w)
  | monthName, w => some (monthNumber .full w)
  | shortMonthName, w => some (monthNumber .short w)
  | _, _ => none

/-- The day that a text names in a slot. -/
def dayIn : Slot → List Char → Option Nat
  | day, w | paddedDay, w => some (digitsValue w)
  | _, _ => none

theorem yearIn_bounds {s : Slot} {w : List Char} (h : s.Fits w) :
    ∀ y ∈ s.yearIn w, 0 ≤ y ∧ y ≤ 9999 := by
  rintro y hy
  cases s <;> cases hy
  case year =>
    have := digitsValue_lt h
    omega
  case shortYear =>
    have := digitsValue_lt h
    split <;> omega

end Slot

/-! ## Days -/

/-- The fields name a day: the month has that day in that year. -/
def NamesDay (f : Template.Fields) : Prop :=
  1 ≤ f.day ∧ f.day ≤ daysInMonth f.year f.month

instance (f : Template.Fields) : Decidable (NamesDay f) :=
  inferInstanceAs (Decidable (_ ∧ _))

theorem toDate_of_namesDay {f : Template.Fields} (hy : 0 ≤ f.year ∧ f.year ≤ 9999) :
    (NamesDay f → ∃ d : Date, (d.year = f.year ∧ d.month = f.month ∧ d.day = f.day) ∧
      f.toDate = .ok d) ∧ (¬ NamesDay f → f.toDate = .error (.noSuchDay f)) := by
  have hr : firstYear ≤ f.year ∧ f.year ≤ lastYear := by
    unfold firstYear lastYear; omega
  unfold Template.Fields.toDate
  constructor
  · intro h
    refine ⟨⟨f.year, f.month, f.day, hr, h⟩, ⟨rfl, rfl, rfl⟩, ?_⟩
    rw [show Date.of? f.year f.month f.day = some _ from dif_pos ⟨hr, h⟩]
  · intro h
    rw [Date.of?_eq_none_iff.2 fun hd => h hd.2]

namespace Template

/-- The numbers that texts of slots name: of each kind the last one, or else its default. -/
def Fields.lastOf (readings : List (Slot × List Char)) (f : Fields) : Fields where
  year := (readings.filterMap fun p => p.1.yearIn p.2).getLast?.getD f.year
  month := (readings.filterMap fun p => p.1.monthIn p.2).getLast?.getD f.month
  day := (readings.filterMap fun p => p.1.dayIn p.2).getLast?.getD f.day

/-- Setting one field after the other keeps the last of each kind. -/
theorem Fields.setAll_eq_lastOf {readings : List (Slot × List Char)}
    (h : ∀ p ∈ readings, p.1 = .shortYear → digitsValue p.2 < 100) (f : Fields) :
    f.setAll readings = lastOf readings f := by
  induction readings generalizing f with
  | nil => rfl
  | cons p readings ih =>
    obtain ⟨hp, hps⟩ := List.forall_mem_cons.1 h
    obtain ⟨s, w⟩ := p
    refine (ih hps (f.set (s.value w) s)).trans ?_
    cases s with
    | shortYear =>
      simp only [lastOf, List.filterMap_cons, Slot.yearIn, Slot.monthIn, Slot.dayIn, Slot.value,
        List.getLast?_cons, Option.getD_some, Fields.set, expandYear_toUInt32 (hp rfl)]
      congr 2
      split <;> simp
    | _ =>
      simp only [lastOf, List.filterMap_cons, Slot.yearIn, Slot.monthIn, Slot.dayIn, Slot.value,
        List.getLast?_cons, Option.getD_some, Fields.set]

theorem Fields.toDate_eq_ok_iff {f : Fields} {d : Date} :
    f.toDate = .ok d ↔ d.year = f.year ∧ d.month = f.month ∧ d.day = f.day := by
  unfold toDate
  constructor
  · intro h
    split at h
    · next d' hd =>
      cases h
      unfold Date.of? at hd
      split at hd
      · cases hd
        exact ⟨rfl, rfl, rfl⟩
      · cases hd
    · cases h
  · rintro ⟨hy, hm, hd⟩
    rw [← hy, ← hm, ← hd, Date.of?_self]

/-! ## Pieces of a text -/

/-- The texts that an item stands for. -/
def Item.Fits : Item → List Char → Prop
  | .slot s, w => s.Fits w
  | .literal c, w => w = [c]

/-- The slots among the items, each with its piece. -/
def readings : Template → List (List Char) → List (Slot × List Char)
  | .slot s :: t, w :: pieces => (s, w) :: readings t pieces
  | .literal _ :: t, _ :: pieces => readings t pieces
  | _, _ => []

/-- The text is made of one piece per item, and the numbers in the pieces are those of the date. -/
def Spells (t : Template) (text : List Char) (d : Date) : Prop :=
  ∃ pieces, List.Forall₂ Item.Fits t pieces ∧ pieces.flatten = text ∧
    let f := Fields.lastOf (t.readings pieces) {}
    d.year = f.year ∧ d.month = f.month ∧ d.day = f.day

theorem fits_of_mem_readings {t : Template} {pieces : List (List Char)}
    (h : List.Forall₂ Item.Fits t pieces) : ∀ p ∈ t.readings pieces, p.1.Fits p.2 := by
  induction h with
  | nil => simp [readings]
  | @cons i w t pieces hi _ ih =>
    cases i with
    | literal c => exact ih
    | slot s => exact List.forall_mem_cons.2 ⟨hi, ih⟩

/-- Fields set from texts of the right shapes are the last ones of each kind. -/
theorem setAll_of_fits {readings : List (Slot × List Char)}
    (h : ∀ p ∈ readings, p.1.Fits p.2) : Fields.setAll {} readings = Fields.lastOf readings {} := by
  refine Fields.setAll_eq_lastOf ?_ {}
  rintro ⟨s, w⟩ hp ⟨⟩
  exact digitsValue_lt (h _ hp)

theorem setAll_readings {t : Template} {pieces : List (List Char)}
    (h : List.Forall₂ Item.Fits t pieces) :
    Fields.setAll {} (t.readings pieces) = Fields.lastOf (t.readings pieces) {} :=
  setAll_of_fits (fits_of_mem_readings h)

theorem parseFields_eq_toDate {fields : List (Slot × List Char)}
    (h : ∀ p ∈ fields, p.1.Fits p.2) :
    parseFields fields = (Fields.lastOf fields {}).toDate := by
  rw [parseFields_of_fits h, setAll_of_fits h]

theorem year_bounds_of_fits {readings : List (Slot × List Char)}
    (h : ∀ p ∈ readings, p.1.Fits p.2) :
    0 ≤ (Fields.lastOf readings {}).year ∧ (Fields.lastOf readings {}).year ≤ 9999 := by
  unfold Fields.lastOf
  simp only
  cases hl : (readings.filterMap fun p => p.1.yearIn p.2).getLast? with
  | none => decide
  | some y =>
    obtain ⟨p, hp, hy⟩ := List.mem_filterMap.1 (List.mem_of_getLast? hl)
    exact Slot.yearIn_bounds (h p hp) y hy

/-! ## Only such texts are read -/

/-- A walk has cut its text into pieces, one for each item. -/
theorem fits_of_walk {t : Template} {f f' : Fields} {text : List Char}
    (h : walk t f text = .ok f') :
    ∃ pieces, List.Forall₂ Item.Fits t pieces ∧ pieces.flatten = text ∧
      f' = f.setAll (t.readings pieces) := by
  fun_induction walk t f text with
  | case1 f =>
    cases h
    exact ⟨[], .nil, rfl, rfl⟩
  | case2 => cases h
  | case3 => cases h
  | case4 t f e rest ih =>
    obtain ⟨pieces, hp, rfl, rfl⟩ := ih h
    exact ⟨[e] :: pieces, .cons rfl hp, rfl, rfl⟩
  | case5 => cases h
  | case6 s t f c rest n rest' hs ih =>
    obtain ⟨w, hw, rfl, ht⟩ := Slot.fits_of_take hs
    obtain ⟨pieces, hp, rfl, rfl⟩ := ih h
    exact ⟨w :: pieces, .cons hw hp, ht.symm, rfl⟩
  | case7 => cases h

/-! ## All such texts are read -/

/-- The item is a number without leading zeros. -/
def Item.isUnpadded : Item → Bool
  | .slot s => s.isUnpadded
  | .literal _ => false

/-- The texts of the item begin with a digit. -/
def Item.beginsWithDigit : Item → Bool
  | .slot .shortMonthName | .slot .monthName => false
  | .slot _ => true
  | .literal c => c.isDigit

/-- Every number without leading zeros is the last item, or has an item behind it that does not
begin with a digit. -/
def Separated (t : Template) : Prop :=
  t.IsChain fun i j => i.isUnpadded → ¬ j.beginsWithDigit

instance (t : Template) : Decidable t.Separated :=
  inferInstanceAs (Decidable (List.IsChain _ _))

theorem Item.Fits.noDigit {i : Item} {w : List Char} (h : i.Fits w) (hi : ¬ i.beginsWithDigit)
    (rest : List Char) : NoDigit (w ++ rest) := by
  cases i with
  | literal c =>
    cases h
    rintro x ⟨⟩
    exact hi
  | slot s =>
    obtain ⟨x, w, rfl⟩ := List.exists_cons_of_ne_nil (Slot.Fits.ne_nil h)
    rintro y ⟨⟩
    cases s with
    | shortMonthName | monthName => exact (NamesMonth.monthWord h).not_isDigit x (by simp)
    | _ => exact absurd rfl hi

/-! ## Longest pieces -/

/-- The piece is of the item's shape, and no longer one stands at the front of the text. -/
def Item.TakesMost (i : Item) (w rest : List Char) : Prop :=
  i.Fits w ∧ ∀ v, i.Fits v → v <+: w ++ rest → v.length ≤ w.length

/-- Each item takes the longest piece of its shape from the front, one item after the other. -/
def Takes : Template → List (List Char) → List Char → Prop
  | [], [], _ => True
  | i :: t, w :: pieces, rest => i.TakesMost w (pieces.flatten ++ rest) ∧ Takes t pieces rest
  | _, _, _ => False

theorem Item.exists_takesMost {i : Item} {v text : List Char} (hv : i.Fits v) (hp : v <+: text) :
    ∃ w rest, w ++ rest = text ∧ i.TakesMost w rest := by
  classical
  -- the greatest length at which the front of the text is of the item's shape
  let n := Nat.findGreatest (fun n => i.Fits (text.take n)) text.length
  have hn : i.Fits (text.take n) := by
    refine Nat.findGreatest_spec (P := fun n => i.Fits (text.take n)) hp.length_le ?_
    rwa [← List.prefix_iff_eq_take.1 hp]
  refine ⟨text.take n, text.drop n, List.take_append_drop n text, hn, fun u hu hup => ?_⟩
  rw [List.take_append_drop] at hup
  rw [List.length_take_of_le (Nat.findGreatest_le _)]
  refine Nat.le_findGreatest hup.length_le ?_
  rwa [← List.prefix_iff_eq_take.1 hup]

theorem Item.TakesMost.unique {i : Item} {v w r s : List Char} (hv : i.TakesMost v r)
    (hw : i.TakesMost w s) (h : v ++ r = w ++ s) : v = w ∧ r = s := by
  have h₁ := hv.2 w hw.1 (h ▸ List.prefix_append w s)
  have h₂ := hw.2 v hv.1 (h ▸ List.prefix_append v r)
  exact List.append_inj h (le_antisymm h₂ h₁)

theorem takesMost_literal_iff {c : Char} {w rest : List Char} :
    Item.TakesMost (.literal c) w rest ↔ w = [c] := by
  constructor
  · exact And.left
  · rintro rfl
    refine ⟨rfl, ?_⟩
    rintro v rfl -
    exact le_rfl

/-- Behind the longest piece of one digit no digit goes on. -/
theorem Item.TakesMost.noDigit {s : Slot} {w rest : List Char}
    (h : Item.TakesMost (.slot s) w rest) (hs : s.isUnpadded) (hw : Digits 1 w) :
    NoDigit rest := by
  rintro c hc hd
  obtain ⟨rest, rfl⟩ := List.head?_eq_some_iff.1 hc
  have h2 : Digits 2 (w ++ [c]) :=
    ⟨by rw [List.length_append, hw.1]; rfl, List.forall_mem_append.2 ⟨hw.2, by simpa using hd⟩⟩
  have hf : s.Fits (w ++ [c]) := by
    cases s <;> first | exact .inr h2 | cases hs
  have := h.2 (w ++ [c]) hf ⟨rest, by simp⟩
  simp at this

theorem take_of_takesMost {s : Slot} {w rest : List Char}
    (h : Item.TakesMost (.slot s) w rest) : s.take (w ++ rest) = some (s.value w, rest) := by
  have hw : s.Fits w := h.1
  cases s with
  | month | day =>
    rcases hw with hw | hw
    · exact takeDigits_append hw le_rfl (by decide) (.inr (h.noDigit rfl hw))
    · exact takeDigits_append hw (by decide) le_rfl (.inl rfl)
  | _ => exact Slot.take_append hw (by rintro ⟨⟩)

theorem takesMost_of_take {s : Slot} {n : Nat} {w rest : List Char} (hw : s.Fits w)
    (h : s.take (w ++ rest) = some (n, rest)) : Item.TakesMost (.slot s) w rest := by
  obtain ⟨v, r, hv, hm⟩ := Item.exists_takesMost (i := .slot s) hw (List.prefix_append w rest)
  have ht := take_of_takesMost hm
  rw [hv, h] at ht
  cases ht
  obtain rfl := List.append_cancel_right hv
  exact hm

/-- A slot reads nothing only if no text of its shape stands at the front. -/
theorem take_eq_none_iff {s : Slot} {text : List Char} :
    s.take text = none ↔ ∀ w, w <+: text → ¬ s.Fits w := by
  constructor
  · intro h v hp hv
    obtain ⟨w, rest, rfl, hw⟩ := Item.exists_takesMost (i := .slot s) hv hp
    rw [take_of_takesMost hw] at h
    cases h
  · intro h
    apply Option.eq_none_iff_forall_ne_some.2
    rintro ⟨n, rest⟩ hs
    obtain ⟨w, hw, -, rfl⟩ := Slot.fits_of_take hs
    exact h w (List.prefix_append w rest) hw

theorem fits_of_takes {t : Template} {pieces : List (List Char)} {rest : List Char}
    (h : t.Takes pieces rest) : List.Forall₂ Item.Fits t pieces := by
  fun_induction Takes t pieces rest with
  | case1 => exact .nil
  | case2 i t w pieces rest ih => exact .cons h.1.1 (ih h.2)
  | case3 => exact h.elim

/-- A walk goes through the longest pieces, and on behind them. -/
theorem walk_of_takes {t u : Template} {pieces : List (List Char)} {rest : List Char}
    (h : t.Takes pieces rest) (f : Fields) :
    walk (t ++ u) f (pieces.flatten ++ rest) = walk u (f.setAll (t.readings pieces)) rest := by
  fun_induction Takes t pieces rest generalizing f with
  | case1 rest => rfl
  | case2 i t w pieces rest ih =>
    obtain ⟨hi, h⟩ := h
    rw [List.flatten_cons, List.append_assoc]
    cases i with
    | literal c =>
      obtain rfl := takesMost_literal_iff.1 hi
      exact (if_pos rfl).trans (ih h f)
    | slot s =>
      have hne : w ≠ [] := Slot.Fits.ne_nil hi.1
      rw [List.cons_append, walk_slot (by simp [hne]), take_of_takesMost hi]
      exact ih h _
  | case3 => exact h.elim

/-- Pieces that keep numbers apart from digits behind them are the longest ones. -/
theorem takes_of_fits {t : Template} {pieces : List (List Char)} {rest : List Char}
    (h : List.Forall₂ Item.Fits t pieces) (ht : t.Separated) (hr : NoDigit rest) :
    t.Takes pieces rest := by
  induction h with
  | nil => trivial
  | @cons i w t pieces hi h ih =>
    refine ⟨?_, ih ht.tail⟩
    cases i with
    | literal c => exact takesMost_literal_iff.2 hi
    | slot s =>
      -- behind the piece stands the next item's piece, or the rest if there is none
      have hnext : s.isUnpadded → NoDigit (pieces.flatten ++ rest) := by
        intro hs
        cases h with
        | nil => exact hr
        | cons hj _ =>
          rw [List.flatten_cons, List.append_assoc]
          exact hj.noDigit (ht.rel hs) _
      exact takesMost_of_take hi (Slot.take_append hi hnext)

/-! ## Dates of texts -/

theorem parse_of_walk_eq_error {t : Template} {text : List Char} {e : ParseError}
    (h : walk t {} text = .error e) : t.parse text = .error e := by
  rw [parse, h]

theorem Spells.of_parse {t : Template} {text : List Char} {d : Date} (h : t.parse text = .ok d) :
    t.Spells text d := by
  unfold parse at h
  split at h
  · next f hw =>
    obtain ⟨pieces, hp, ht, rfl⟩ := fits_of_walk hw
    rw [setAll_readings hp] at h
    exact ⟨pieces, hp, ht, Fields.toDate_eq_ok_iff.1 h⟩
  · cases h

theorem Spells.parse_eq {t : Template} {text : List Char} {d : Date} (h : t.Spells text d)
    (ht : t.Separated) : t.parse text = .ok d := by
  obtain ⟨pieces, hp, rfl, hd⟩ := h
  have hk : t.Takes pieces [] := takes_of_fits hp ht (by rintro c ⟨⟩)
  have hw := walk_of_takes (u := []) hk {}
  rw [List.append_nil, List.append_nil] at hw
  rw [parse, hw, setAll_readings hp]
  exact Fields.toDate_eq_ok_iff.2 hd

theorem Spells.year_bounds {t : Template} {text : List Char} {d : Date} (h : t.Spells text d) :
    0 ≤ d.year ∧ d.year ≤ 9999 := by
  obtain ⟨pieces, hp, -, hy, -⟩ := h
  rw [hy]
  exact year_bounds_of_fits (fits_of_mem_readings hp)

/-- A text is read as a date only if it is made of one piece per item of the template and the date
is the one that the numbers in them name, and then its year has four digits at most. If numbers
without leading zeros are kept apart from digits behind them, every such text is read. -/
theorem parse_eq_ok_iff_spells (template text : List Char) (d : Date) :
    let t := ofText template
    (t.Separated → (t.parse text = .ok d ↔ t.Spells text d)) ∧
      (t.parse text = .ok d → t.Spells text d ∧ 0 ≤ d.year ∧ d.year ≤ 9999) := by
  intro t
  refine ⟨fun ht => ⟨.of_parse, fun h => h.parse_eq ht⟩, fun h => ?_⟩
  have hs := Spells.of_parse h
  exact ⟨hs, hs.year_bounds⟩

/-- Percent signs that open no slot are literals, and of two days the last counts. -/
theorem parse_eq_ok_iff_spells_march :
    let t := ofText ['%', '-', 'd', '%', 'B', '%', '%', 'y', '%', '-', 'd']
    let text := ['3', '1', 'm', 'A', 'R', 'c', 'h', '%', '0', '0', '0', '7']
    let d : Date := ⟨2000, 3, 7, by decide⟩
    t.Separated ∧ t.Spells text d ∧ t.parse text = .ok d ∧ 0 ≤ d.year ∧ d.year ≤ 9999 := by
  intro t text d
  have ht : t.Separated := by decide
  have hs : t.Spells text d := by
    refine ⟨[['3', '1'], ['m', 'A', 'R', 'c', 'h'], ['%'], ['0', '0'], ['0', '7']], ?_, rfl,
      by decide⟩
    have he : t = [.slot .day, .slot .monthName, .literal '%', .slot .shortYear, .slot .day] := by
      decide
    rw [he]
    have hday : Slot.day.Fits ['3', '1'] := .inr ⟨rfl, by simp⟩
    have hmonth : Slot.monthName.Fits ['m', 'A', 'R', 'c', 'h'] :=
      ⟨"March".toList, by decide, by decide⟩
    have hyear : Slot.shortYear.Fits ['0', '0'] := ⟨rfl, by simp⟩
    have hlast : Slot.day.Fits ['0', '7'] := .inr ⟨rfl, by simp⟩
    exact .cons hday (.cons hmonth (.cons rfl (.cons hyear (.cons hlast .nil))))
  have hp := ((parse_eq_ok_iff_spells _ text d).1 ht).2 hs
  exact ⟨ht, hs, hp, ((parse_eq_ok_iff_spells _ text d).2 hp).2⟩

/-- A number that may have one digit takes two if it can, and leaves too few behind. -/
example : (ofText ['%', '-', 'm', '%', 'd']).parse ['1', '2', '3'] =
    .error (.badValue .paddedDay ['3']) := by decide

end Template

end Redate
