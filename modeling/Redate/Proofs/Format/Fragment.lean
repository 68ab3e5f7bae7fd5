/-
The fragments of tags. In the pattern of a format every tag has a group, and the text of a group
says which alternatives it has, in order of preference, made of which letters. What a tag takes from
a text and what it adds to the compiled size are both told by the fragment that is read from its
group. The main statement says the same of whole patterns: read from left to right, a pattern takes
from a text just what the search for the format takes, in the same order, and has the size that is
held against the limit.
-/
import Redate.Matching.First
import Redate.Proofs.Format.Pattern
import Redate.Proofs.Text.Words

namespace Redate

/-! ## Fragments -/

/-- A letter of a fragment: one character out of a range, or a certain one. -/
inductive Letter
  | range (first last : Char)
  | char (c : Char)
  deriving DecidableEq

/-- What the text of a group says: whether letters stand for either case, which alternatives there
are, the preferred ones first, and whether all of them may be left out. -/
structure Fragment where
  folded : Bool
  alternatives : List (List Letter)
  optional : Bool
  deriving DecidableEq

/-- Some digits. -/
def Letter.digits (n : Nat) : List Letter :=
  List.replicate n (.range '0' '9')

/-- What the group of a tag says. -/
def Tag.fragment : Tag → Fragment
  | day | month => ⟨false, [Letter.digits 2, [.range '1' '9']], false⟩
  | paddedDay | paddedMonth | shortYear => ⟨false, [Letter.digits 2], false⟩
  | year => ⟨false, [Letter.digits 4], false⟩
  | monthName => ⟨true, (monthNames .full).map (·.map fun c => .char c.toLower), false⟩
  | shortMonthName => ⟨true, (monthNames .short).map (·.map fun c => .char c.toLower), false⟩
  | ordinal => ⟨false, ordinalSuffixes.map (·.map .char), false⟩
  | optionalOrdinal => ⟨false, ordinalSuffixes.map (·.map .char), true⟩

/-! ## Reading the text of a group -/

namespace Fragment

/-- The alternatives with some letters more in front of the first one. -/
def putBefore (letters : List Letter) : List (List Letter) → List (List Letter)
  | [] => [letters]
  | first :: more => (letters ++ first) :: more

/-- The alternatives that a text lists. A count behind a range repeats it, and no other operator may
stand in the text. -/
def readAlternatives : List Char → Option (List (List Letter))
  | [] => some [[]]
  | '|' :: rest => (readAlternatives rest).map ([] :: ·)
  | '[' :: a :: '-' :: b :: ']' :: '\x7b' :: n :: '\x7d' :: rest =>
    (readAlternatives rest).map (putBefore (List.replicate (digitsValue [n]) (.range a b)))
  | '[' :: a :: '-' :: b :: ']' :: rest => (readAlternatives rest).map (putBefore [.range a b])
  | c :: rest =>
    if IsOperator c then none else (readAlternatives rest).map (putBefore [.char c])

/-- The fragment that a text closes: alternatives up to the parenthesis, and a question mark behind
it if the group is optional. -/
def close (folded : Bool) (text : List Char) : Option Fragment :=
  let inner := text.takeWhile (· != ')')
  match text.drop inner.length with
  | [')'] => (readAlternatives inner).map (⟨folded, ·, false⟩)
  | [')', '?'] => (readAlternatives inner).map (⟨folded, ·, true⟩)
  | _ => none

/-- The fragment that the text of a group says, if it is a group and nothing else. -/
def ofText : List Char → Option Fragment
  | '(' :: '(' :: '?' :: 'i' :: ')' :: rest => close true rest
  | '(' :: rest => close false rest
  | _ => none

theorem ofText_pattern (t : Tag) : ofText t.pattern = some t.fragment := by
  cases t <;> decide

end Fragment

/-! ## What a fragment takes -/

/-- The letter stands for the character. Ranges are of digits, which have no case. -/
def Letter.standsFor (folded : Bool) : Letter → Char → Bool
  | range first last, c => first ≤ c && c ≤ last
  | char d, c => if folded then sameFolded d c else d == c

/-- The ways for a fragment to take text from the front: its alternatives in order, and last none of
them if it is optional. -/
def Fragment.choices (text : List Char) (f : Fragment) : List Choice :=
  f.alternatives.filterMap (Choice.word? (Letter.standsFor f.folded) text) ++
    if f.optional then [⟨none, text⟩] else []

namespace Choice

theorem word?_map {α β : Type} (g : β → α) (same : α → Char → Bool) (text : List Char)
    (word : List β) : word? same text (word.map g) = word? (fun b => same (g b)) text word := by
  rw [word?, word?, dropWord?_map, List.length_map]

theorem words_map {α β : Type} (g : β → α) (same : α → Char → Bool) (text : List Char)
    (words : List (List β)) :
    (words.map (·.map g)).filterMap (word? same text) =
      words.filterMap (word? (fun b => same (g b)) text) := by
  rw [List.filterMap_map]
  exact List.filterMap_congr fun word _ => word?_map g same text word

theorem standsFor_digit (c : Char) : Letter.standsFor false (.range '0' '9') c = c.isDigit :=
  rfl

theorem dropWord?_digits (n : Nat) (text : List Char) :
    dropWord? (Letter.standsFor false) (Letter.digits n) text =
      if (text.take n).length = n ∧ (text.take n).all Char.isDigit then some (text.drop n)
      else none := by
  unfold Letter.digits
  induction n generalizing text with
  | zero => simp [dropWord?]
  | succ n ih =>
    cases text with
    | nil => simp [List.replicate_succ, dropWord?]
    | cons c text =>
      rw [List.replicate_succ, dropWord?, standsFor_digit, ih text]
      by_cases hc : c.isDigit <;> simp [hc]

theorem word?_digits (n : Nat) (text : List Char) :
    word? (Letter.standsFor false) text (Letter.digits n) = digits? n text := by
  rw [word?, dropWord?_digits, digits?, Letter.digits, List.length_replicate]
  split <;> rfl

theorem standsFor_nonzeroDigit (c : Char) :
    Letter.standsFor false (.range '1' '9') c ↔ c.isDigit ∧ c ≠ '0' := by
  have h₁ : '1'.toNat = '0'.toNat + 1 := rfl
  have hc : c.val.toNat = c.toNat := rfl
  have h₁' : '1'.val.toNat = '1'.toNat := rfl
  have h₉ : '9'.val.toNat = '9'.toNat := rfl
  rw [Letter.standsFor, Bool.and_eq_true, decide_eq_true_iff, decide_eq_true_iff, Char.le_def,
    Char.le_def, UInt32.le_iff_toNat_le, UInt32.le_iff_toNat_le, Char.isDigit_iff_toNat, ne_eq,
    ← Char.toNat_inj]
  omega

theorem word?_nonzeroDigit (text : List Char) :
    word? (Letter.standsFor false) text [.range '1' '9'] = nonzeroDigit? text := by
  cases text with
  | nil => rfl
  | cons c rest =>
    rw [word?, dropWord?, nonzeroDigit?]
    simp only [standsFor_nonzeroDigit]
    split <;> rfl

end Choice

/-- Month names are in the pattern in small letters, which stand for either case. -/
theorem sameFolded_toLower (a : Char) : sameFolded a.toLower = sameFolded a := by
  funext c
  unfold sameFolded
  by_cases ha : a.isUpper
  · have hl : a.isAlpha := by rw [Char.isAlpha, ha, Bool.true_or]
    rw [foldCase_of_isAlpha (by simpa using hl), Char.toLower_toLower_eq_toLower,
      foldCase_of_isAlpha hl]
  · rw [Char.toLower_eq_of_not_isUpper ha]

theorem standsFor_folded :
    (fun a : Char => Letter.standsFor true (.char a.toLower)) = sameFolded :=
  funext sameFolded_toLower

/-- What a tag takes is what its fragment takes, in the same order. -/
theorem Fragment.choices_fragment (t : Tag) (text : List Char) :
    t.fragment.choices text = t.choices text := by
  unfold choices
  cases t with
  | day | month =>
    simp [Tag.fragment, Tag.choices, List.filterMap_eq_flatMap_toList, Choice.word?_digits,
      Choice.word?_nonzeroDigit]
  | paddedDay | paddedMonth | shortYear | year =>
    simp [Tag.fragment, Tag.choices, List.filterMap_eq_flatMap_toList, Choice.word?_digits]
  | monthName | shortMonthName =>
    simp only [Tag.fragment, Tag.choices]
    rw [Choice.words_map, standsFor_folded]
    exact List.append_nil _
  | ordinal =>
    simp only [Tag.fragment, Tag.choices]
    rw [Choice.words_map]
    exact List.append_nil _
  | optionalOrdinal =>
    simp only [Tag.fragment, Tag.choices]
    rw [Choice.words_map]
    rfl

/-! ## What a fragment weighs -/

namespace Fragment

/-- A state where some ranges of bytes lead on. -/
def rangesSize (n : Nat) : Nat :=
  32 + 8 * n

/-- A state where some ways part. -/
def partingSize (n : Nat) : Nat :=
  32 + 4 * n

/-- A state with one way on, by a certain byte or without any. -/
def stateSize : Nat :=
  32

/-- The states of a letter. Ranges of bytes lead from one state to another. A letter in either case
is two of them; the letter s is also the long s, with two bytes, which share nothing with the other
ways when they are read backward. -/
def letterSize (d : Direction) (folded : Bool) : Letter → Nat
  | .range _ _ => rangesSize 1 + stateSize
  | .char c =>
    match folded, d with
    | false, _ => stateSize * c.utf8Size
    | true, .forward =>
      if c = 's' then rangesSize 3 + rangesSize 1 + stateSize else rangesSize 2 + stateSize
    | true, .backward =>
      if c = 's' then partingSize 3 + 4 * stateSize + stateSize else rangesSize 2 + stateSize

/-- The fronts of some words, the words themselves apart. -/
def fronts (words : List (List Char)) : List (List Char) :=
  (words.flatMap fun w => (List.range w.length).map w.take).eraseDups

/-- The letters that follow a front in some words. -/
def following (words : List (List Char)) (front : List Char) : List Char :=
  (words.filterMap fun w => if front <+: w then w[front.length]? else none).eraseDups

/-- The states of words that share them as long as they begin alike: each front has one for the
letters that follow it, and one where the way past it parts; all words end in one state. -/
def wordsSize (words : List (List Char)) : Nat :=
  ((fronts words).map fun front =>
    let n := (following words front).length
    (if n = 1 then stateSize else rangesSize n) + partingSize 1).sum + stateSize

/-- The alternatives of a fragment as words, if their letters are certain characters. -/
def words? (f : Fragment) : Option (List (List Char)) :=
  if f.folded then none
  else f.alternatives.mapM (·.mapM fun
    | .range _ _ => none
    | .char c => some c)

/-- The states of the alternatives. -/
def alternativesSize (d : Direction) (f : Fragment) : Nat :=
  match f.alternatives, f.words? with
  | [letters], _ => (letters.map (letterSize d f.folded)).sum
  | _, some words => wordsSize (if d = .backward then words.map List.reverse else words)
  | alternatives, none =>
    partingSize alternatives.length + stateSize +
      (alternatives.map fun letters => (letters.map (letterSize d f.folded)).sum).sum

/-- The states of a fragment: its alternatives, a way around them if it is optional, and the two
ends of a group where groups are kept. -/
def size (d : Direction) (f : Fragment) : Nat :=
  f.alternativesSize d + (if f.optional then partingSize 2 + stateSize else 0) +
    if d = .forward then 2 * stateSize else 0

theorem size_fragment (d : Direction) (t : Tag) : t.fragment.size d = t.size d := by
  cases d <;> cases t <;> decide

end Fragment

/-! ## Patterns -/

namespace Sign

/-- The ways for a sign to take text from the front: its character, or what its group says. -/
def choices (text : List Char) : Sign → List Choice
  | escaped c | plain c => (Choice.word? (· == ·) text [c]).toList
  | group w => ((Fragment.ofText w).map (·.choices text)).getD []

/-- The states of a sign. -/
def size (d : Direction) : Sign → Nat
  | escaped c | plain c => Fragment.letterSize d false (.char c)
  | group w => ((Fragment.ofText w).map (·.size d)).getD 0

theorem StandsFor.literal_or_tag {s : Sign} {t : Token} (h : s.StandsFor t) :
    (∃ c, t = .literal c ∧ (s = .escaped c ∨ s = .plain c)) ∨
      ∃ u : Tag, t = .tag u ∧ s = .group u.pattern := by
  cases s with
  | escaped c => exact .inl ⟨c, standsFor_escaped_iff.1 h, .inl rfl⟩
  | plain c => exact .inl ⟨c, standsFor_plain_iff.1 h, .inr rfl⟩
  | group w =>
    obtain ⟨u, ht, rfl⟩ := standsFor_group_iff.1 h
    exact .inr ⟨u, ht, rfl⟩

theorem StandsFor.choices_eq {s : Sign} {t : Token} (h : s.StandsFor t) (text : List Char) :
    s.choices text = t.choices text := by
  obtain ⟨c, rfl, rfl | rfl⟩ | ⟨u, rfl, rfl⟩ := h.literal_or_tag
  · rfl
  · rfl
  · rw [choices, Fragment.ofText_pattern]
    exact Fragment.choices_fragment u text

theorem StandsFor.size_eq {s : Sign} {t : Token} (h : s.StandsFor t) (d : Direction) :
    s.size d = t.size d := by
  obtain ⟨c, rfl, rfl | rfl⟩ | ⟨u, rfl, rfl⟩ := h.literal_or_tag
  · rfl
  · rfl
  · rw [size, Fragment.ofText_pattern]
    exact Fragment.size_fragment d u

end Sign

/-- Every way to take signs one after the other from the front of a text, the preferred ones first:
what each sign takes, and what they leave. -/
def ways : List Sign → List Char → List (List (Option (List Char)) × List Char)
  | [], text => [([], text)]
  | s :: signs, text =>
    (s.choices text).flatMap fun c =>
      (ways signs c.rest).map fun (taken, rest) => (c.taken :: taken, rest)

/-- What the parts of a decomposition take, and what they leave. -/
def Decomposition.way (d : Decomposition) : List (Option (List Char)) × List Char :=
  (d.parts.map Part.taken, d.rest)

theorem ways_eq {signs : List Sign} {tokens : List Token}
    (h : List.Forall₂ Sign.StandsFor signs tokens) (text : List Char) :
    ways signs text = (decompositions tokens text).map Decomposition.way := by
  induction h generalizing text with
  | nil => rfl
  | cons hs _ ih =>
    rw [ways, decompositions, hs.choices_eq, List.map_flatMap]
    refine List.flatMap_congr fun c _ => ?_
    rw [ih, List.map_map, List.map_map]
    rfl

theorem sum_size_eq {signs : List Sign} {tokens : List Token}
    (h : List.Forall₂ Sign.StandsFor signs tokens) (d : Direction) :
    (signs.map (Sign.size d)).sum + d.frame = automatonSize d tokens := by
  induction h with
  | nil => exact Nat.zero_add _
  | @cons s t signs tokens hs _ ih =>
    have ha : automatonSize d (t :: tokens) = t.size d + automatonSize d tokens := rfl
    rw [List.map_cons, List.sum_cons, hs.size_eq, ha, ← ih, Nat.add_assoc]

/-- The pattern of a format, read from left to right, has a sign for each token of the format. The
ways to take these signs from a text are the decompositions that the format has there, and the
first of them is the one that the search finds. The signs add up to the sizes that must keep within
the limit. -/
theorem InputFormat.pattern_spec (f : InputFormat) :
    ∃ signs, ReadsAs f.pattern signs f.tokens ∧
      (∀ text, ways signs text = (decompositions f.tokens text).map Decomposition.way ∧
        (ways signs text).head? = (firstDecomposition f.tokens text).map Decomposition.way) ∧
      ∀ d, (signs.map (Sign.size d)).sum + d.frame = automatonSize d f.tokens := by
  have h := readsAs_patternOf f.tokens
  refine ⟨_, h, fun text => ?_, sum_size_eq h.standsFor⟩
  have hw := ways_eq h.standsFor text
  exact ⟨hw, by rw [hw, firstDecomposition_eq, List.head?_map]⟩

/-- A day of one digit is a way too, and comes second. -/
example : ways [.group Tag.day.pattern, .group Tag.optionalOrdinal.pattern] ['1', '2', 't', 'h'] =
    [([some ['1', '2'], some ['t', 'h']], []), ([some ['1', '2'], none], ['t', 'h']),
      ([some ['1'], none], ['2', 't', 'h'])] := by
  decide

end Redate
