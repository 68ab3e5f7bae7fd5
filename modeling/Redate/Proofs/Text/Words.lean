/-
Words at the front of a text, as a relation: a word can be dropped exactly when the text begins
with characters that agree with it, and of words none of which begins another at most one can be
dropped. Folding is put in plain terms: a character agrees with a letter of a month name when it
is the letter in either case, or a long s for an s.
-/
import Mathlib
import Redate.Calendar
import Redate.Text.Words

namespace Redate

/-! ## Dropping a word -/

theorem dropWord?_map {α β : Type} (g : β → α) (same : α → Char → Bool) (word : List β)
    (text : List Char) :
    dropWord? same (word.map g) text = dropWord? (fun b => same (g b)) word text := by
  fun_induction dropWord? (fun b => same (g b)) word text <;> simp_all [dropWord?]

section Key

variable {k : Char → Char}

/-- Characters are compared by a key; the text begins with characters of the word's keys. -/
theorem dropWord?_eq_some_iff {word text rest : List Char} :
    dropWord? (fun a b => k a == k b) word text = some rest ↔
      ∃ w, w.map k = word.map k ∧ text = w ++ rest := by
  fun_induction dropWord? (fun a b => k a == k b) word text with
  | case1 text => simp [eq_comm]
  | case2 a word =>
    simp only [reduceCtorEq, false_iff, not_exists, not_and]
    rintro w hw h
    obtain ⟨rfl, -⟩ := List.append_eq_nil_iff.1 h.symm
    simp at hw
  | case3 a word c text h ih =>
    rw [ih]
    constructor
    · rintro ⟨w, hw, rfl⟩
      exact ⟨c :: w, by simpa [hw] using (eq_of_beq h).symm, rfl⟩
    · rintro ⟨w, hw, h'⟩
      cases w with
      | nil => simp at hw
      | cons c' w =>
        simp only [List.cons_append, List.cons.injEq] at h'
        simp only [List.map_cons, List.cons.injEq] at hw
        exact ⟨w, hw.2, h'.2⟩
  | case4 a word c text h =>
    -- the keys differ at the first character already
    simp only [reduceCtorEq, false_iff, not_exists, not_and]
    rintro w hw h'
    cases w with
    | nil => simp at hw
    | cons c' w =>
      simp only [List.cons_append, List.cons.injEq] at h'
      simp only [List.map_cons, List.cons.injEq] at hw
      exact h (by rw [h'.1, hw.1]; exact beq_self_eq_true _)

/-- Neither word begins the other, as far as the key tells. -/
def Apart (k : Char → Char) (a b : List Char) : Prop :=
  ¬ a.map k <+: b.map k ∧ ¬ b.map k <+: a.map k

instance (k : Char → Char) (a b : List Char) : Decidable (Apart k a b) :=
  inferInstanceAs (Decidable (_ ∧ _))

instance (k : Char → Char) : Std.Symm (Apart k) :=
  ⟨fun _ _ h => ⟨h.2, h.1⟩⟩

theorem prefix_or_prefix_of_append_eq {v w a b r s : List Char} (hv : v.map k = a.map k)
    (hw : w.map k = b.map k) (h : v ++ r = w ++ s) :
    a.map k <+: b.map k ∨ b.map k <+: a.map k := by
  rw [← hv, ← hw]
  have h₁ : v <+: w ++ s := ⟨r, h⟩
  have h₂ : w <+: w ++ s := List.prefix_append _ _
  exact (List.prefix_or_prefix_of_prefix h₁ h₂).imp (·.map k) (·.map k)

/-- A text begins with at most one of several words that are apart. -/
theorem eq_of_pairwise_apart {words : List (List Char)} (hp : words.Pairwise (Apart k))
    {a b v w r s : List Char} (ha : a ∈ words) (hb : b ∈ words) (hv : v.map k = a.map k)
    (hw : w.map k = b.map k) (h : v ++ r = w ++ s) : a = b := by
  by_contra hne
  -- both words begin the same text, so one of them begins the other
  have := hp.forall ha hb hne
  exact (prefix_or_prefix_of_append_eq hv hw h).elim this.1 this.2

end Key

/-! ## Letters of month names -/

theorem apart_monthNames (l : NameLength) : (monthNames l).Pairwise (Apart foldCase) := by
  cases l <;> decide

/-- The characters that stand for a letter of a month name in a text. -/
def StandsFor (c letter : Char) : Prop :=
  c = letter.toLower ∨ c = letter.toUpper ∨ letter.toLower = 's' ∧ c = 'ſ'

theorem eq_toLower_or_eq_toUpper {a c : Char} (h : c.toLower = a.toLower) :
    c = a.toLower ∨ c = a.toUpper := by
  by_cases hc : c.isUpper
  · right
    rw [← Char.toUpper_toLower_eq_toUpper, ← h, Char.toUpper_toLower_eq_toUpper,
      Char.toUpper_eq_of_not_isLower (Char.not_isLower_of_isUpper hc)]
  · left
    rw [← h, Char.toLower_eq_of_not_isUpper hc]

theorem foldCase_of_isAlpha {a : Char} (ha : a.isAlpha) : foldCase a = a.toLower := by
  have h₁ : a ≠ 'ſ' := by rintro rfl; simp at ha
  have h₂ : a ≠ '\u212a' := by rintro rfl; simp at ha
  simp [foldCase, h₁, h₂]

/-- For every letter but k, to which the Kelvin sign folds, this is what folding compares. -/
theorem foldCase_eq_iff {a c : Char} (ha : a.isAlpha) (hk : a.toLower ≠ 'k') :
    foldCase c = foldCase a ↔ StandsFor c a := by
  rw [foldCase_of_isAlpha ha]
  constructor
  · intro h
    unfold foldCase at h
    split at h
    · next hc => exact .inr (.inr ⟨h.symm, eq_of_beq hc⟩)
    · split at h
      · exact absurd h.symm hk
      · exact (eq_toLower_or_eq_toUpper h).imp_right .inl
  · rintro (rfl | rfl | ⟨h, rfl⟩)
    · rw [foldCase_of_isAlpha (by simpa using ha), Char.toLower_toLower_eq_toLower]
    · rw [foldCase_of_isAlpha (by simpa using ha), Char.toLower_toUpper_eq_toLower]
    · rw [h]; rfl

theorem letters_of_monthNames (l : NameLength) :
    ∀ name ∈ monthNames l, ∀ a ∈ name, a.isAlpha ∧ a.toLower ≠ 'k' := by
  have h : (monthNames l).all (·.all fun a => a.isAlpha && a.toLower != 'k') = true := by
    cases l <;> decide
  simpa using h

theorem map_foldCase_eq_iff {l : NameLength} {name w : List Char} (hn : name ∈ monthNames l) :
    w.map foldCase = name.map foldCase ↔ List.Forall₂ StandsFor w name := by
  have hkey : ∀ (name w : List Char), (∀ a ∈ name, a.isAlpha ∧ a.toLower ≠ 'k') →
      (w.map foldCase = name.map foldCase ↔ List.Forall₂ StandsFor w name) := by
    intro name w hl
    induction name generalizing w with
    | nil => simp
    | cons a name ih =>
      obtain ⟨ha, hl⟩ := List.forall_mem_cons.1 hl
      cases w with
      | nil => simp
      | cons c w => simp [foldCase_eq_iff ha.1 ha.2, ih w hl]
  exact hkey name w (letters_of_monthNames l name hn)

/-- A month name of the given length, up to folding. -/
def MonthWord (l : NameLength) (w : List Char) : Prop :=
  ∃ name ∈ monthNames l, List.Forall₂ StandsFor w name

theorem isAlpha_or_eq_of_standsFor {a c : Char} (ha : a.isAlpha) (h : StandsFor c a) :
    c.isAlpha ∨ c = 'ſ' := by
  rcases h with rfl | rfl | ⟨-, rfl⟩
  · exact .inl (by simpa using ha)
  · exact .inl (by simpa using ha)
  · exact .inr rfl

theorem MonthWord.isAlpha_or_eq {l : NameLength} {w : List Char} (h : MonthWord l w) :
    ∀ c ∈ w, c.isAlpha ∨ c = 'ſ' := by
  obtain ⟨name, hn, hw⟩ := h
  intro c hc
  obtain ⟨i, hi, rfl⟩ := List.getElem_of_mem hc
  have hi' : i < name.length := hw.length_eq ▸ hi
  exact isAlpha_or_eq_of_standsFor (letters_of_monthNames l name hn _ (List.getElem_mem hi')).1
    (hw.get hi hi')

theorem not_isDigit_of_isAlpha {c : Char} (h : c.isAlpha) : ¬ c.isDigit := by
  simp only [Char.isAlpha, Char.isUpper, Char.isLower, Char.isDigit, Char.reduceVal, ge_iff_le,
    UInt32.le_iff_toNat_le, UInt32.reduceToNat, Bool.or_eq_true, Bool.and_eq_true,
    decide_eq_true_eq] at h ⊢
  omega

/-- No month name begins with a digit. -/
theorem MonthWord.not_isDigit {l : NameLength} {w : List Char} (h : MonthWord l w) :
    ∀ c ∈ w, ¬ c.isDigit := by
  intro c hc
  rcases h.isAlpha_or_eq c hc with h | rfl
  · exact not_isDigit_of_isAlpha h
  · decide

/-! ## ASCII case -/

/-- Without a long s, letters of month names agree up to ASCII case already. -/
theorem toLower_eq_of_standsFor {a c : Char} (hc : c ≠ 'ſ') (h : StandsFor c a) :
    c.toLower = a.toLower := by
  rcases h with rfl | rfl | ⟨-, rfl⟩
  · exact Char.toLower_toLower_eq_toLower a
  · exact Char.toLower_toUpper_eq_toLower a
  · exact absurd rfl hc

theorem map_toLower_eq_of_standsFor {name w : List Char} (hw : 'ſ' ∉ w)
    (h : List.Forall₂ StandsFor w name) : w.map Char.toLower = name.map Char.toLower := by
  induction h with
  | nil => rfl
  | cons hc _ ih =>
    simp only [List.mem_cons, not_or] at hw
    simp [toLower_eq_of_standsFor (Ne.symm hw.1) hc, ih hw.2]

end Redate
