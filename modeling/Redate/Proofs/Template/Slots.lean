/-
What slots read. Each slot stands for texts of one shape, and from such a text at the front it
reads the number that the text names, unless a digit goes on behind it. A month name with a long s
is not read at all. Fields that are closed by delimiters are read one by one, each on its own.
-/
import Redate.Proofs.Text.Numbers
import Redate.Proofs.Text.Words
import Redate.Template

namespace Redate

/-! ## Digits -/

/-- The text does not begin with a digit. -/
def NoDigit (text : List Char) : Prop :=
  ∀ c ∈ text.head?, ¬ c.isDigit

theorem takeWhile_isDigit_of_noDigit {text : List Char} (h : NoDigit text) (n : Nat) :
    (text.take n).takeWhile Char.isDigit = [] := by
  cases text with
  | nil => simp
  | cons c rest =>
    cases n with
    | zero => rfl
    | succ n =>
      rw [List.take_succ_cons]
      exact List.takeWhile_cons_of_neg (h c rfl)

theorem takeDigits_append {least most k : Nat} {w rest : List Char} (hw : Digits k w)
    (hl : least ≤ k) (hm : k ≤ most) (hr : k = most ∨ NoDigit rest) :
    takeDigits least most (w ++ rest) = some (digitsValue w, rest) := by
  obtain ⟨rfl, hd⟩ := hw
  have hmore : (rest.take (most - w.length)).takeWhile Char.isDigit = [] := by
    rcases hr with h | h
    · rw [h, Nat.sub_self]; rfl
    · exact takeWhile_isDigit_of_noDigit h _
  have ht : ((w ++ rest).take most).takeWhile Char.isDigit = w := by
    rw [List.take_append, List.take_of_length_le hm, List.takeWhile_append_of_pos hd, hmore,
      List.append_nil]
  unfold takeDigits
  simp only [ht]
  rw [if_neg (by omega), List.drop_left]

/-! ## Month names -/

/-- A month name in any ASCII case. -/
def NamesMonth (l : NameLength) (w : List Char) : Prop :=
  ∃ name ∈ monthNames l, w.map Char.toLower = name.map Char.toLower

/-- The number of the month that a text names, counted from one. -/
def monthNumber (l : NameLength) (w : List Char) : Nat :=
  (monthNames l).findIdx (fun name => w.map Char.toLower == name.map Char.toLower) + 1

theorem apart_toLower_monthNames (l : NameLength) :
    (monthNames l).Pairwise (Apart Char.toLower) := by
  cases l <;> decide

theorem findSome?_zipIdx {α β : Type} {p : α → Bool} {f : α → Option β} {r : β} {l : List α}
    (hf : ∀ a ∈ l, f a = if p a then some r else none) (h : ∃ a ∈ l, p a) (k : Nat) :
    (l.zipIdx k).findSome? (fun x => (f x.1).map fun r => (x.2, r)) =
      some (l.findIdx p + k, r) := by
  induction l generalizing k with
  | nil => simp at h
  | cons a l ih =>
    obtain ⟨ha, hl⟩ := List.forall_mem_cons.1 hf
    rw [List.zipIdx_cons, List.findSome?_cons, List.findIdx_cons, ha]
    cases hp : p a with
    | true => simp
    | false =>
      obtain ⟨b, hb, hpb⟩ := h
      have hb : b ∈ l := (List.mem_cons.1 hb).resolve_left (by rintro rfl; simp [hp] at hpb)
      simp only [Bool.false_eq_true, ↓reduceIte, Option.map_none]
      rw [ih hl ⟨b, hb, hpb⟩, cond_false]
      congr 2
      omega

theorem takeMonthName_append {l : NameLength} {w : List Char} (hw : NamesMonth l w)
    (rest : List Char) : takeMonthName l (w ++ rest) = some (monthNumber l w, rest) := by
  obtain ⟨name, hn, hw⟩ := hw
  refine findSome?_zipIdx (p := fun name => w.map Char.toLower == name.map Char.toLower)
    (f := fun name => dropWord? sameLetter name (w ++ rest)) (fun a ha => ?_)
    ⟨name, hn, by simpa using hw⟩ 1
  split
  · next h => exact dropWord?_eq_some_iff.2 ⟨w, eq_of_beq h, rfl⟩
  · next h =>
    -- another name cannot begin the text as well
    apply Option.eq_none_iff_forall_ne_some.2
    intro r hr
    obtain ⟨v, hv, h'⟩ := dropWord?_eq_some_iff.1 hr
    obtain rfl := eq_of_pairwise_apart (apart_toLower_monthNames l) hn ha hw hv h'
    exact h (by simpa using hw)

theorem standsFor_of_map_toLower_eq {name w : List Char}
    (h : w.map Char.toLower = name.map Char.toLower) : List.Forall₂ StandsFor w name := by
  induction name generalizing w with
  | nil => simpa using h
  | cons a name ih =>
    cases w with
    | nil => simp at h
    | cons c w =>
      simp only [List.map_cons, List.cons.injEq] at h
      exact .cons ((eq_toLower_or_eq_toUpper h.1).imp_right .inl) (ih h.2)

theorem not_map_toLower_eq {l : NameLength} {name w : List Char} (hn : name ∈ monthNames l)
    (hs : 'ſ' ∈ w) : w.map Char.toLower ≠ name.map Char.toLower := by
  intro h
  have hm : 'ſ' ∈ name.map Char.toLower := h ▸ List.mem_map.2 ⟨'ſ', hs, rfl⟩
  obtain ⟨a, ha, ha'⟩ := List.mem_map.1 hm
  have := (letters_of_monthNames l name hn a ha).1
  rw [← Char.isAlpha_toLower_eq_isAlpha, ha'] at this
  cases this

/-- Month names are read up to ASCII case only, so one with a long s is not read. -/
theorem takeMonthName_of_mem_longS {l : NameLength} {w : List Char} (hw : MonthWord l w)
    (hs : 'ſ' ∈ w) (rest : List Char) : takeMonthName l (w ++ rest) = none := by
  obtain ⟨name, hn, hw⟩ := hw
  apply List.findSome?_eq_none_iff.2
  intro x hx
  have ha : x.1 ∈ monthNames l := List.fst_mem_of_mem_zipIdx hx
  rw [Option.map_eq_none_iff]
  apply Option.eq_none_iff_forall_ne_some.2
  intro r hr
  obtain ⟨v, hv, h⟩ := dropWord?_eq_some_iff.1 hr
  -- up to folding the text names one month only, so `v` would have to be `w` itself
  have hf := (map_foldCase_eq_iff ha).2 (standsFor_of_map_toLower_eq hv)
  have hf' := (map_foldCase_eq_iff hn).2 hw
  obtain rfl := eq_of_pairwise_apart (apart_monthNames l) hn ha hf' hf h
  have hl : w.length = v.length := by
    simpa using congrArg List.length (hf'.trans hf.symm)
  obtain ⟨rfl, -⟩ := List.append_inj h hl
  exact not_map_toLower_eq hn hs hv

/-! ## Slots -/

namespace Slot

/-- The texts that a slot stands for. -/
def Fits : Slot → List Char → Prop
  | year, w => Digits 4 w
  | shortYear, w | paddedMonth, w | paddedDay, w => Digits 2 w
  | month, w | day, w => Digits 1 w ∨ Digits 2 w
  | shortMonthName, w => NamesMonth .short w
  | monthName, w => NamesMonth .full w

/-- The number that a text names in a slot. -/
def value : Slot → List Char → Nat
  | shortMonthName, w => monthNumber .short w
  | monthName, w => monthNumber .full w
  | _, w => digitsValue w

/-- The slot reads one digit or two, so its text must not run into another digit. -/
def isUnpadded : Slot → Bool
  | month | day => true
  | _ => false

/-- A slot reads a text of its shape, unless it is unpadded and a digit goes on behind it. -/
theorem take_append {s : Slot} {w rest : List Char} (hw : s.Fits w)
    (hr : s.isUnpadded → NoDigit rest) : s.take (w ++ rest) = some (s.value w, rest) := by
  cases s with
  | year => exact takeDigits_append hw le_rfl le_rfl (.inl rfl)
  | shortYear | paddedMonth | paddedDay => exact takeDigits_append hw le_rfl le_rfl (.inl rfl)
  | month | day =>
    rcases hw with hw | hw
    · exact takeDigits_append hw le_rfl (by decide) (.inr (hr rfl))
    · exact takeDigits_append hw (by decide) le_rfl (.inl rfl)
  | shortMonthName | monthName => exact takeMonthName_append hw rest

end Slot

/-! ## Fields closed by delimiters -/

namespace Template

theorem ofSlots_append (slots more : List Slot) :
    ofSlots (slots ++ more) = ofSlots slots ++ ofSlots more :=
  List.flatMap_append

theorem noDigit_delimiter (text : List Char) : NoDigit (delimiter :: text) := by
  rintro c ⟨⟩
  decide

theorem walk_slot {s : Slot} {t : Template} {f : Fields} {text : List Char} (h : text ≠ []) :
    walk (.slot s :: t) f text =
      match s.take text with
      | some (n, rest) => walk t (f.set n s) rest
      | none => .error (.badValue s (text.takeWhile (· != delimiter))) := by
  obtain ⟨c, rest, rfl⟩ := List.exists_cons_of_ne_nil h
  cases hs : s.take (c :: rest) <;> simp only [walk, hs]

/-- The fields after readings that all succeed. -/
def Fields.setAll (f : Fields) (fields : List (Slot × List Char)) : Fields :=
  fields.foldl (fun f p => f.set (p.1.value p.2) p.1) f

/-- Fields in their shapes are read, and the walk goes on behind them. -/
theorem walk_fields {fields : List (Slot × List Char)} (h : ∀ p ∈ fields, p.1.Fits p.2)
    (f : Fields) (t : Template) (text : List Char) :
    walk (ofSlots (fields.map (·.1)) ++ t) f
        (fields.flatMap (fun p => p.2 ++ [delimiter]) ++ text) =
      walk t (f.setAll fields) text := by
  induction fields generalizing f with
  | nil => rfl
  | cons p fields ih =>
    obtain ⟨hp, h⟩ := List.forall_mem_cons.1 h
    have ih := ih h (f.set (p.1.value p.2) p.1)
    simp only [ofSlots, List.map_cons, List.flatMap_cons, List.append_assoc, List.cons_append,
      List.nil_append] at ih ⊢
    -- the delimiter keeps the next field off, and is itself the literal that follows
    rw [walk_slot (by simp), Slot.take_append hp fun _ => noDigit_delimiter _]
    simp only [walk, ↓reduceIte]
    exact ih

theorem parseFields_of_fits {fields : List (Slot × List Char)}
    (h : ∀ p ∈ fields, p.1.Fits p.2) :
    parseFields fields = (Fields.setAll {} fields).toDate := by
  have hw := walk_fields h {} [] []
  rw [List.append_nil, List.append_nil] at hw
  rw [parseFields, parse, hw]
  rfl

theorem takeWhile_delimiter {w : List Char} (h : delimiter ∉ w) (rest : List Char) :
    (w ++ rest).takeWhile (· != delimiter) = w ++ rest.takeWhile (· != delimiter) :=
  List.takeWhile_append_of_pos fun c hc => by simpa using fun e : c = delimiter => h (e ▸ hc)

/-- The first field that cannot be read is reported with its whole text. -/
theorem parseFields_of_not_take {good more : List (Slot × List Char)} {s : Slot} {w : List Char}
    (h : ∀ p ∈ good, p.1.Fits p.2) (hd : delimiter ∉ w)
    (hn : ∀ rest, s.take (w ++ rest) = none) :
    parseFields (good ++ (s, w) :: more) = .error (.badValue s w) := by
  have hw := walk_fields h {} (ofSlots (s :: more.map (·.1)))
    (w ++ [delimiter] ++ more.flatMap fun p => p.2 ++ [delimiter])
  have ht : (w ++ ([delimiter] ++ more.flatMap fun p => p.2 ++ [delimiter])).takeWhile
      (· != delimiter) = w := by
    rw [takeWhile_delimiter hd]
    simp
  have he : walk (ofSlots (s :: more.map (·.1))) (Fields.setAll {} good)
      (w ++ [delimiter] ++ more.flatMap fun p => p.2 ++ [delimiter]) =
        .error (.badValue s w) := by
    show walk (.slot s :: _) _ _ = _
    rw [List.append_assoc, walk_slot (by simp), hn, ht]
  rw [parseFields, parse, List.map_append, ofSlots_append, List.flatMap_append, List.map_cons,
    List.flatMap_cons, hw, he]

end Template

end Redate
