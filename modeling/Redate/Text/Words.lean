/-
Numbers and words in texts: the value of a run of digits, numbers filled with zeros to a width, and
words at the front of a text, compared letter by letter: exactly, without regard to the case of
ASCII letters, or up to Unicode simple case folding.
-/

namespace Redate

/-! ## Numbers -/

/-- The number that a run of decimal digits spells. -/
def digitsValue (digits : List Char) : Nat :=
  digits.foldl (fun n c => 10 * n + (c.toNat - '0'.toNat)) 0

/-- A digit put behind a number, where the result is still a word of the machine. -/
def appendDigit? (n : UInt32) (c : Char) : Option UInt32 :=
  let value := 10 * n.toNat + (c.toNat - '0'.toNat)
  if value < UInt32.size then some value.toUInt32 else none

/-- The number that digits spell, as a word of the machine. -/
def wordOf? (digits : List Char) : Option UInt32 :=
  digits.foldlM appendDigit? 0

/-- The decimal digits of `n`, with zeros in front up to `width` places. -/
def padded (width n : Nat) : List Char :=
  (Nat.toDigits 10 n).leftpad width '0'

/-- A number that may be negative, in at least `width` places; a minus sign takes one of them. -/
def signedPadded (width : Nat) (n : Int) : List Char :=
  if n < 0 then '-' :: padded (width - 1) n.natAbs else padded width n.natAbs

/-- A year in four places. A year outside 0 to 9999 shows its sign, plus or minus, in front of at
least four digits. -/
def yearText (year : Int) : List Char :=
  if 0 ≤ year ∧ year ≤ 9999 then padded 4 year.natAbs
  else (if year < 0 then '-' else '+') :: padded 4 year.natAbs

/-! ## Words -/

/-- What follows `word` at the front of a text, when each of its letters agrees with the character
in the text by `same`. Letters are characters, or what else stands for characters. -/
def dropWord? {α : Type} (same : α → Char → Bool) : List α → List Char → Option (List Char)
  | [], text => some text
  | _ :: _, [] => none
  | w :: word, c :: text => if same w c then dropWord? same word text else none

/-- Equal but for the case of ASCII letters. -/
def sameLetter (a b : Char) : Bool :=
  a.toLower == b.toLower

/-- Unicode simple case folding, as far as it ends in ASCII: besides the capital letters, the long
s folds to s and the Kelvin sign to k. -/
def foldCase (c : Char) : Char :=
  if c == 'ſ' then 's' else if c == '\u212a' then 'k' else c.toLower

/-- Equal up to Unicode simple case folding onto ASCII. -/
def sameFolded (a b : Char) : Bool :=
  foldCase a == foldCase b

theorem dropWord?_eq_some {α : Type} {same : α → Char → Bool} {word : List α}
    {text rest : List Char} (h : dropWord? same word text = some rest) :
    text.drop word.length = rest ∧ word.length ≤ text.length := by
  fun_induction dropWord? same word text with
  | case1 => simpa using h
  | case2 => simp at h
  | case3 w word c text _ ih => simpa using ih h
  | case4 => simp at h

theorem take_append_of_dropWord? {α : Type} {same : α → Char → Bool} {word : List α}
    {text rest : List Char} (h : dropWord? same word text = some rest) :
    text.take word.length ++ rest = text := by
  rw [← (dropWord?_eq_some h).1, List.take_append_drop]

end Redate
