/-
What the tokens of a format may take from a text. Each token offers its choices in order of
preference; a decomposition makes one choice per token on consecutive parts of the text, and
decompositions come in the lexicographic order of their choices.
-/
import Redate.Format.Token
import Redate.Text.Words

namespace Redate

/-! ## Choices of one token -/

/-- One way for a token to take text from the front. Nothing is taken where an optional part is
left out. -/
structure Choice where
  taken : Option (List Char)
  rest : List Char
  deriving DecidableEq, Repr

namespace Choice

/-- The text that was taken, empty where an optional part is left out. -/
def text (c : Choice) : List Char :=
  c.taken.getD []

/-- Exactly `n` digits. -/
def digits? (n : Nat) (text : List Char) : Option Choice :=
  if (text.take n).length = n ∧ (text.take n).all Char.isDigit then
    some ⟨some (text.take n), text.drop n⟩
  else none

/-- One digit other than zero. -/
def nonzeroDigit? : List Char → Option Choice
  | [] => none
  | c :: rest => if c.isDigit ∧ c ≠ '0' then some ⟨some [c], rest⟩ else none

/-- As many characters as a word has letters, if they agree with it. -/
def word? {α : Type} (same : α → Char → Bool) (text : List Char) (word : List α) :
    Option Choice :=
  (dropWord? same word text).map fun rest => ⟨some (text.take word.length), rest⟩

end Choice

/-- The suffixes of ordinals, in the order in which they are tried. -/
def ordinalSuffixes : List (List Char) :=
  [['s', 't'], ['n', 'd'], ['r', 'd'], ['t', 'h']]

/-- The choices of a tag: of a day or month number two digits are preferred to one, and an
optional ordinal is left out last. Month names may have any case, ordinals may not. -/
def Tag.choices (text : List Char) : Tag → List Choice
  | day | month => (Choice.digits? 2 text).toList ++ (Choice.nonzeroDigit? text).toList
  | paddedDay | paddedMonth | shortYear => (Choice.digits? 2 text).toList
  | year => (Choice.digits? 4 text).toList
  | monthName => (monthNames .full).filterMap (Choice.word? sameFolded text)
  | shortMonthName => (monthNames .short).filterMap (Choice.word? sameFolded text)
  | ordinal => ordinalSuffixes.filterMap (Choice.word? (· == ·) text)
  | optionalOrdinal => ordinalSuffixes.filterMap (Choice.word? (· == ·) text) ++ [⟨none, text⟩]

/-- The choices of a token; a literal takes its own character only. -/
def Token.choices (text : List Char) : Token → List Choice
  | tag t => t.choices text
  | literal c => (Choice.word? (· == ·) text [c]).toList

/-! ## Decompositions -/

/-- A token with what it took. -/
structure Part where
  token : Token
  taken : Option (List Char)
  deriving DecidableEq, Repr

/-- The text that the part took. -/
def Part.text (p : Part) : List Char :=
  p.taken.getD []

/-- One part for each token, on consecutive pieces of a text, and what they leave. -/
structure Decomposition where
  parts : List Part
  rest : List Char
  deriving DecidableEq, Repr

/-- The text that all parts took together. -/
def Decomposition.text (d : Decomposition) : List Char :=
  d.parts.flatMap Part.text

/-- Every decomposition at the front of a text, the preferred ones first. -/
def decompositions : List Token → List Char → List Decomposition
  | [], text => [⟨[], text⟩]
  | t :: ts, text =>
    (t.choices text).flatMap fun c =>
      (decompositions ts c.rest).map fun d => ⟨⟨t, c.taken⟩ :: d.parts, d.rest⟩

/-! ## Nothing is lost -/

theorem Choice.append_of_digits? {n : Nat} {text : List Char} {c : Choice}
    (h : digits? n text = some c) : c.text ++ c.rest = text := by
  unfold digits? at h
  split at h
  · simp only [Option.some.injEq] at h; subst h; simp [Choice.text]
  · simp at h

theorem Choice.append_of_nonzeroDigit? {text : List Char} {c : Choice}
    (h : nonzeroDigit? text = some c) : c.text ++ c.rest = text := by
  revert h
  fun_cases nonzeroDigit? text
  · simp
  · rintro ⟨⟩; rfl
  · simp

theorem Choice.append_of_word? {α : Type} {same : α → Char → Bool} {text : List Char}
    {word : List α} {c : Choice} (h : word? same text word = some c) : c.text ++ c.rest = text := by
  unfold word? at h
  obtain ⟨rest, hr, rfl⟩ := Option.map_eq_some_iff.1 h
  exact take_append_of_dropWord? hr

theorem Choice.append_of_words {same : Char → Char → Bool} {text : List Char}
    {words : List (List Char)} {c : Choice} (h : c ∈ words.filterMap (word? same text)) :
    c.text ++ c.rest = text := by
  obtain ⟨_, _, hw⟩ := List.mem_filterMap.1 h
  exact append_of_word? hw

theorem Tag.append_of_mem_choices {t : Tag} {text : List Char} {c : Choice}
    (h : c ∈ t.choices text) : c.text ++ c.rest = text := by
  cases t <;>
    simp only [Tag.choices, List.mem_append, Option.mem_toList,
      List.mem_singleton] at h
  case day | month =>
    exact h.elim Choice.append_of_digits? Choice.append_of_nonzeroDigit?
  case paddedDay | paddedMonth | shortYear | year => exact Choice.append_of_digits? h
  case monthName | shortMonthName | ordinal => exact Choice.append_of_words h
  case optionalOrdinal =>
    rcases h with h | rfl
    · exact Choice.append_of_words h
    · rfl

theorem Token.append_of_mem_choices {t : Token} {text : List Char} {c : Choice}
    (h : c ∈ t.choices text) : c.text ++ c.rest = text := by
  cases t with
  | tag t => exact Tag.append_of_mem_choices h
  | literal x => exact Choice.append_of_word? (by simpa [Token.choices] using h)

theorem append_of_mem_decompositions {ts : List Token} {text : List Char} {d : Decomposition}
    (h : d ∈ decompositions ts text) : d.text ++ d.rest = text := by
  induction ts generalizing text d with
  | nil =>
    simp only [decompositions, List.mem_singleton] at h
    subst h; rfl
  | cons t ts ih =>
    simp only [decompositions, List.mem_flatMap, List.mem_map] at h
    obtain ⟨c, hc, d', hd', rfl⟩ := h
    have h₁ := Token.append_of_mem_choices hc
    have h₂ := ih hd'
    simp only [Decomposition.text, List.flatMap_cons, Part.text] at h₂ ⊢
    rw [List.append_assoc, h₂]
    exact h₁

end Redate
