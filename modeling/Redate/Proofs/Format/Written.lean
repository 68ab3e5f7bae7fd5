/-
What a format writes for a date, piece by piece. Each piece has the shape of its token, and it is
the first one that the token takes there, unless a number without leading zeros runs into a digit
behind it. So the search takes a written date apart into the pieces it was put together from.
-/
import Redate.Format.Output
import Redate.Proofs.Matching.Preference
import Redate.Proofs.Template.Rereading

namespace Redate

/-! ## Written pieces have their shapes -/

theorem ordinalSuffix_mem (day : Nat) : ordinalSuffix day ∈ ordinalSuffixes := by
  unfold ordinalSuffix
  split <;> decide

/-- What a tag writes is of its shape, but for a year in full without four digits. -/
theorem Tag.fits_render_of_year {d : Date} {t : Tag}
    (hy : t = .year → 0 ≤ d.year ∧ d.year ≤ 9999) : t.Fits (some (t.render d)) := by
  have hm := d.month_bounds
  have hd := d.day_bounds
  cases t with
  | year => exact Slot.fits_render (s := .year) fun _ => hy rfl
  | shortYear => exact Slot.fits_render (s := .shortYear) nofun
  | paddedMonth => exact Slot.fits_render (s := .paddedMonth) nofun
  | paddedDay => exact Slot.fits_render (s := .paddedDay) nofun
  | monthName => exact NamesMonth.monthWord (Slot.fits_render (s := .monthName) nofun)
  | shortMonthName => exact NamesMonth.monthWord (Slot.fits_render (s := .shortMonthName) nofun)
  -- the slots of these would take a zero as well
  | month => exact digits_or_nonzeroDigit_padded hm.1 (by omega)
  | day => exact digits_or_nonzeroDigit_padded hd.1 (by omega)
  | ordinal | optionalOrdinal => exact ordinalSuffix_mem d.day

theorem Token.fits_render_of_year {d : Date} {t : Token}
    (hy : t = .tag .year → 0 ≤ d.year ∧ d.year ≤ 9999) : t.Fits (some (t.render d)) := by
  cases t with
  | tag t => exact Tag.fits_render_of_year fun h => hy (congrArg Token.tag h)
  | literal c => rfl

theorem Token.fits_render {d : Date} (hy : 0 ≤ d.year ∧ d.year ≤ 9999) (t : Token) :
    t.Fits (some (t.render d)) :=
  Token.fits_render_of_year fun _ => hy

/-! ## The characters of pieces -/

/-- What a token is in a template; an ordinal is nothing there. -/
def Token.item? : Token → Option Template.Item
  | tag t => t.slot?.map .slot
  | literal c => some (.literal c)

/-- The texts of the token begin with a digit. -/
def Token.beginsWithDigit (t : Token) : Bool :=
  t.item?.any Template.Item.beginsWithDigit

/-- The number of the tag is written without leading zeros. -/
def Token.isUnpadded (t : Token) : Bool :=
  t.item?.any Template.Item.isUnpadded

/-- The tags whose texts are made of digits. -/
def Tag.isNumber (t : Tag) : Bool :=
  (Token.tag t).beginsWithDigit

theorem isAlpha_of_mem_ordinalSuffixes {w : List Char} (hw : w ∈ ordinalSuffixes) :
    ∀ c ∈ w, c.isAlpha := by
  have h : ordinalSuffixes.all (·.all Char.isAlpha) = true := by decide
  have := List.all_eq_true.1 h w hw
  simpa using this

theorem Tag.Fits.isDigit {t : Tag} {w : List Char} (h : t.Fits (some w)) (ht : t.isNumber) :
    ∀ c ∈ w, c.isDigit := by
  cases t with
  | day | month => exact h.elim And.right fun h => h.digits.2
  | paddedDay | paddedMonth | shortYear | year => exact h.2
  | monthName | shortMonthName | ordinal | optionalOrdinal => cases ht

/-- A tag that is no number takes letters, and the long s. -/
theorem Tag.Fits.isAlpha_or_eq {t : Tag} {w : List Char} (h : t.Fits (some w))
    (ht : ¬ t.isNumber) : ∀ c ∈ w, c.isAlpha ∨ c = 'ſ' := by
  cases t with
  | monthName | shortMonthName => exact MonthWord.isAlpha_or_eq h
  | ordinal | optionalOrdinal => exact fun c hc => .inl (isAlpha_of_mem_ordinalSuffixes h c hc)
  | day | month | paddedDay | paddedMonth | shortYear | year => exact absurd rfl ht

/-- Letters, digits, the long s, and literals of the format are all that tokens take. -/
theorem Token.Fits.mem {t : Token} {w : List Char} (h : t.Fits (some w)) {c : Char} (hc : c ∈ w) :
    c.isAlphanum ∨ c = 'ſ' ∨ t = .literal c := by
  cases t with
  | literal x =>
    cases h
    exact .inr (.inr (by rw [List.mem_singleton.1 hc]))
  | tag t =>
    by_cases ht : t.isNumber
    · left
      rw [Char.isAlphanum, Tag.Fits.isDigit h ht c hc, Bool.or_true]
    · rcases Tag.Fits.isAlpha_or_eq h ht c hc with hl | hl
      · left
        rw [Char.isAlphanum, hl, Bool.true_or]
      · exact .inr (.inl hl)

theorem Token.render_eq_of_item? {t : Token} {i : Template.Item} (h : t.item? = some i) (d : Date) :
    t.render d = i.render d := by
  cases t with
  | literal c => cases h; rfl
  | tag t =>
    obtain ⟨s, hs, rfl⟩ := Option.map_eq_some_iff.1 h
    simp only [Token.render, Tag.render, hs]
    rfl

/-- What is no item writes the suffix of an ordinal. -/
theorem Token.render_eq_of_item?_eq_none {t : Token} (h : t.item? = none) (d : Date) :
    t.render d = ordinalSuffix d.day := by
  cases t with
  | literal c => cases h
  | tag t =>
    simp only [Token.render, Tag.render, Option.map_eq_none_iff.1 h]

/-- What is written for a token that does not begin with a digit keeps a digit off. -/
theorem noDigit_render {d : Date} (hy : 0 ≤ d.year ∧ d.year ≤ 9999) {t : Token}
    (ht : ¬ t.beginsWithDigit) (rest : List Char) : NoDigit (t.render d ++ rest) := by
  cases hi : t.item? with
  | some i =>
    have hd : ¬ i.beginsWithDigit := by simpa [Token.beginsWithDigit, hi] using ht
    rw [Token.render_eq_of_item? hi]
    exact (Template.Item.fits_render fun _ => hy).noDigit hd rest
  | none =>
    have hm := ordinalSuffix_mem d.day
    obtain ⟨c, w, hw⟩ := List.exists_cons_of_ne_nil (l := ordinalSuffix d.day) fun h =>
      absurd (h ▸ hm) (by decide)
    rw [hw] at hm
    rw [Token.render_eq_of_item?_eq_none hi, hw]
    rintro x ⟨⟩
    exact not_isDigit_of_isAlpha (isAlpha_of_mem_ordinalSuffixes hm c List.mem_cons_self)

/-! ## Written dates are taken apart -/

/-- A number without leading zeros must not run into a digit. -/
def KeepsApart (t u : Token) : Prop :=
  t.isUnpadded → ¬ u.beginsWithDigit

instance (t u : Token) : Decidable (KeepsApart t u) :=
  inferInstanceAs (Decidable (_ → _))

/-- Only one digit gives way to another choice, which has two. -/
theorem Token.Prefers.isUnpadded {t : Token} {a : Option (List Char)} {w : List Char}
    (h : t.Prefers a (some w)) :
    t.isUnpadded ∧ ∃ v, a = some v ∧ v.length = 2 ∧ w.length = 1 := by
  unfold Token.Prefers at h
  split at h
  · next hw => cases hw; exact ⟨rfl, _, rfl, h⟩
  · next hw => cases hw; exact ⟨rfl, _, rfl, h⟩
  · next hw => cases hw
  · exact h.elim

/-- No choice is preferred to the written piece. -/
theorem not_prefers_render {d : Date} {t : Token} {rest : List Char} {c : Choice}
    (hr : t.isUnpadded → NoDigit rest) (hc : c ∈ t.choices (t.render d ++ rest)) :
    ¬ t.Prefers c.taken (some (t.render d)) := by
  intro hp
  obtain ⟨ht, v, hv, hv₂, hw₁⟩ := hp.isUnpadded
  obtain ⟨hf, htext⟩ := Token.mem_choices_iff.1 hc
  -- the preferred choice would take one more digit, from what stands behind
  obtain ⟨x, hx⟩ := List.length_eq_one_iff.1 hw₁
  obtain ⟨y, z, rfl⟩ := List.length_eq_two.1 hv₂
  rw [Choice.text, hv, hx] at htext
  obtain ⟨rfl, rfl⟩ : y = x ∧ z :: c.rest = rest := by simpa using htext
  refine hr ht z rfl ?_
  rw [hv] at hf
  cases t with
  | literal e => cases ht
  | tag t =>
    have hn : t.isNumber := by
      cases t <;> first | rfl | cases ht
    exact Tag.Fits.isDigit hf hn z (by simp)

theorem head?_choices_render {d : Date} (hy : 0 ≤ d.year ∧ d.year ≤ 9999) {t : Token}
    {rest : List Char} (hr : t.isUnpadded → NoDigit rest) :
    (t.choices (t.render d ++ rest)).head? = some ⟨some (t.render d), rest⟩ := by
  refine Token.head?_choices ?_ fun c hc => not_prefers_render hr hc
  exact Token.mem_choices_iff.2 ⟨t.fits_render hy, rfl⟩

/-- The parts of a date as the tokens write it. -/
def writtenParts (d : Date) (tokens : List Token) : List Part :=
  tokens.map fun t => ⟨t, some (t.render d)⟩

theorem flatMap_text_writtenParts (d : Date) (tokens : List Token) :
    (writtenParts d tokens).flatMap Part.text = tokens.flatMap (Token.render d) := by
  rw [writtenParts, List.flatMap_map]
  rfl

/-- The search takes a written date apart as it was written. -/
theorem firstDecomposition_written {d : Date} (hy : 0 ≤ d.year ∧ d.year ≤ 9999)
    {tokens : List Token} (ht : tokens.IsChain KeepsApart) {rest : List Char}
    (hr : NoDigit rest) :
    firstDecomposition tokens (tokens.flatMap (Token.render d) ++ rest) =
      some ⟨writtenParts d tokens, rest⟩ := by
  induction tokens with
  | nil => rw [firstDecomposition_eq]; rfl
  | cons t ts ih =>
    -- behind the piece stands the next token's piece, or the rest if there is none
    have hnext : t.isUnpadded → NoDigit (ts.flatMap (Token.render d) ++ rest) := by
      intro hu
      cases ts with
      | nil => exact hr
      | cons u us =>
        rw [List.flatMap_cons, List.append_assoc]
        exact noDigit_render hy (ht.rel hu) _
    rw [List.flatMap_cons, List.append_assoc]
    exact firstDecomposition_cons (head?_choices_render hy hnext) (ih ht.tail)

end Redate
