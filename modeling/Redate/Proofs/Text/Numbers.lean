/-
Numbers in texts: runs of digits of a given length, the bound on their values, and numbers filled
up with zeros, which read back as themselves.
-/
import Mathlib
import Redate.Text.Words

namespace Redate

/-- `n` ASCII digits. -/
def Digits (n : Nat) (w : List Char) : Prop :=
  w.length = n ∧ ∀ c ∈ w, c.isDigit

/-- One digit from 1 to 9. -/
def NonzeroDigit (w : List Char) : Prop :=
  ∃ c, w = [c] ∧ c.isDigit ∧ c ≠ '0'

theorem NonzeroDigit.digits {w : List Char} (h : NonzeroDigit w) : Digits 1 w := by
  obtain ⟨c, rfl, hc, -⟩ := h
  exact ⟨rfl, by simpa using hc⟩

/-! ## Values -/

theorem digitsValue_eq (w : List Char) : digitsValue w = Nat.ofDigitChars 10 w 0 :=
  Nat.ofDigitChars_eq_foldl.symm

theorem ofDigitChars_lt {w : List Char} (h : ∀ c ∈ w, c.isDigit) (init : Nat) :
    Nat.ofDigitChars 10 w init < (init + 1) * 10 ^ w.length := by
  induction w generalizing init with
  | nil => simp
  | cons c w ih =>
    obtain ⟨hc, hw⟩ := List.forall_mem_cons.1 h
    have hd : c.toNat - '0'.toNat ≤ 9 := by
      have := Char.isDigit_iff_toNat.1 hc
      have : '9'.toNat = '0'.toNat + 9 := rfl
      omega
    -- the digit is below the base, so one more place is room for it
    rw [Nat.ofDigitChars_cons, List.length_cons, Nat.pow_succ, Nat.mul_comm (10 ^ _),
      ← Nat.mul_assoc]
    refine Nat.lt_of_lt_of_le (ih hw _) (Nat.mul_le_mul_right _ ?_)
    omega

theorem digitsValue_lt {n : Nat} {w : List Char} (h : Digits n w) : digitsValue w < 10 ^ n := by
  have := ofDigitChars_lt h.2 0
  rwa [h.1, Nat.zero_add, Nat.one_mul, ← digitsValue_eq] at this

/-- Digits are told by their length and their value. -/
theorem eq_of_ofDigitChars_eq {v w : List Char} (hv : ∀ c ∈ v, c.isDigit) (hw : ∀ c ∈ w, c.isDigit)
    (hl : v.length = w.length) {a b : Nat}
    (h : Nat.ofDigitChars 10 v a = Nat.ofDigitChars 10 w b) : a = b ∧ v = w := by
  induction v generalizing w a b with
  | nil =>
    obtain rfl := List.length_eq_zero_iff.1 hl.symm
    exact ⟨h, rfl⟩
  | cons c v ih =>
    cases w with
    | nil => cases hl
    | cons d w =>
      obtain ⟨hc, hv⟩ := List.forall_mem_cons.1 hv
      obtain ⟨hd, hw⟩ := List.forall_mem_cons.1 hw
      rw [Nat.ofDigitChars_cons, Nat.ofDigitChars_cons] at h
      obtain ⟨h, rfl⟩ := ih hv hw (Nat.succ.inj hl) h
      -- the digits in front are below the base, so they are the remainders
      have hc := Char.isDigit_iff_toNat.1 hc
      have hd := Char.isDigit_iff_toNat.1 hd
      have : '9'.toNat = '0'.toNat + 9 := rfl
      have hcd : c.toNat = d.toNat := by omega
      exact ⟨by omega, by rw [Char.toNat_inj.1 hcd]⟩

theorem eq_of_digitsValue_eq {n : Nat} {v w : List Char} (hv : Digits n v) (hw : Digits n w)
    (h : digitsValue v = digitsValue w) : v = w := by
  rw [digitsValue_eq, digitsValue_eq] at h
  exact (eq_of_ofDigitChars_eq hv.2 hw.2 (hv.1.trans hw.1.symm) h).2

/-! ## Numbers filled up with zeros -/

theorem digitsValue_padded (width n : Nat) : digitsValue (padded width n) = n := by
  rw [digitsValue_eq, padded, List.leftpad, Nat.ofDigitChars_append,
    Nat.ofDigitChars_replicate_zero, Nat.mul_zero, Nat.ofDigitChars_ten_toDigits]

theorem isDigit_of_mem_padded {width n : Nat} {c : Char} (h : c ∈ padded width n) :
    c.isDigit := by
  rcases List.mem_append.1 h with h | h
  · rw [List.eq_of_mem_replicate h]; rfl
  · exact Nat.isDigit_of_mem_toDigits (by decide) (by decide) h

/-- A number that fits the width fills it exactly. -/
theorem digits_padded {width n : Nat} (hw : 0 < width) (h : n < 10 ^ width) :
    Digits width (padded width n) := by
  refine ⟨?_, fun c => isDigit_of_mem_padded⟩
  have := (Nat.length_toDigits_le_iff (by decide) hw).2 h
  rw [padded, List.length_leftpad]
  omega

/-- Digits are written again from their value. -/
theorem padded_digitsValue {n : Nat} {w : List Char} (hn : 0 < n) (h : Digits n w) :
    padded n (digitsValue w) = w :=
  eq_of_digitsValue_eq (digits_padded hn (digitsValue_lt h)) h (digitsValue_padded _ _)

/-- A number below ten is written with one digit, which is not zero if the number is not. -/
theorem nonzeroDigit_padded {n : Nat} (h₁ : 1 ≤ n) (h : n < 10) :
    NonzeroDigit (padded 1 n) := by
  have hd : Digits 1 (padded 1 n) := digits_padded (by decide) h
  obtain ⟨c, hc⟩ := List.length_eq_one_iff.1 hd.1
  refine ⟨c, hc, hd.2 c (by simp [hc]), ?_⟩
  rintro rfl
  have := digitsValue_padded 1 n
  rw [hc] at this
  have : digitsValue ['0'] = 0 := rfl
  omega

theorem digits_padded_one {n : Nat} (h₁ : 10 ≤ n) (h : n < 100) : Digits 2 (padded 1 n) := by
  refine ⟨?_, fun c => isDigit_of_mem_padded⟩
  have h2 := (Nat.length_toDigits_le_iff (b := 10) (n := n) (k := 2) (by decide) (by decide)).2 h
  have h1 := mt (Nat.length_toDigits_le_iff (b := 10) (n := n) (k := 1) (by decide) (by decide)).1
    (by omega)
  rw [padded, List.length_leftpad]
  omega

end Redate
