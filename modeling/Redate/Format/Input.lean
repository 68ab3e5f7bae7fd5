/-
Input formats: what dates look like in the text that is read. A format becomes a pattern, a regular
expression with one group for each tag. Patterns are limited in the size they compile to, which
grows with every token; an input format is a format whose pattern keeps within the limit.
-/
import Redate.Error
import Redate.Format.Token

namespace Redate

/-! ## Patterns -/

/-- The month names in lower case, as alternatives. -/
def monthAlternatives (l : NameLength) : List Char :=
  ['|'].intercalate ((monthNames l).map (·.map Char.toLower))

/-- The group that matches the tag's part of a date. -/
def Tag.pattern : Tag → List Char
  | day | month => "([0-9]\x7b2\x7d|[1-9])".toList
  | paddedDay | paddedMonth | shortYear => "([0-9]\x7b2\x7d)".toList
  | monthName => "((?i)".toList ++ monthAlternatives .full ++ [')']
  | shortMonthName => "((?i)".toList ++ monthAlternatives .short ++ [')']
  | optionalOrdinal => "(st|nd|rd|th)?".toList
  | ordinal => "(st|nd|rd|th)".toList
  | year => "([0-9]\x7b4\x7d)".toList

/-- The characters that a pattern gives a meaning of their own. -/
def specialCharacters : List Char :=
  ['\\', '^', '$', '.', '|', '?', '*', '+', '(', ')', '[', ']', '\x7b', '\x7d']

/-- The pattern of one token; a literal with a special meaning is escaped. -/
def Token.pattern : Token → List Char
  | .tag t => t.pattern
  | .literal c => if c ∈ specialCharacters then ['\\', c] else [c]

/-- The pattern of some tokens, one after the other. -/
def patternOf (tokens : List Token) : List Char :=
  tokens.flatMap Token.pattern

/-! ## Compiled size -/

/-- The two automata that a pattern is compiled to: one reads forward and keeps the groups of a
match, the other goes backward from the end of a match to its start and keeps none. -/
inductive Direction
  | forward
  | backward
  deriving DecidableEq, Repr

/-- The states of the group of a tag in an automaton, in bytes. They follow from what the group is
made of: 64 for the two ends of a group, which only the forward automaton has, 72 for a digit, 80
for a letter in both cases, and 32 for each state where ways part or meet, with 4 for each way. -/
def Tag.size : Direction → Tag → Nat
  | .forward, monthName => 6192
  | .backward, monthName => 6280
  | .forward, shortMonthName => 3104
  | .backward, shortMonthName => 3116
  | .forward, optionalOrdinal => 540
  | .backward, optionalOrdinal => 416
  | .forward, ordinal => 468
  | .backward, ordinal => 344
  | .forward, day | .forward, month | .forward, year => 352
  | .backward, day | .backward, month | .backward, year => 288
  | .forward, paddedDay | .forward, paddedMonth | .forward, shortYear => 208
  | .backward, paddedDay | .backward, paddedMonth | .backward, shortYear => 144

/-- The states of a token in an automaton, in bytes; a literal has one for each of its bytes. -/
def Token.size (d : Direction) : Token → Nat
  | .tag t => t.size d
  | .literal c => 32 * c.utf8Size

/-- The states that every automaton has: 32 for the last one, 112 for a loop over the bytes in front
of a match, and 64 for the group of the whole match where groups are kept. -/
def Direction.frame : Direction → Nat
  | forward => 208
  | backward => 144

/-- The size of one of the automata of a pattern, in bytes. -/
def automatonSize (d : Direction) (tokens : List Token) : Nat :=
  tokens.foldr (fun t n => t.size d + n) d.frame

/-- The compiled size of a pattern. Each of its automata has to keep within the limit, so it is the
size of the larger one. -/
def compiledSize (tokens : List Token) : Nat :=
  max (automatonSize .forward tokens) (automatonSize .backward tokens)

/-- The largest compiled size, in bytes. -/
def sizeLimit : Nat := 10485760

/-! ## Input formats -/

/-- A format to read dates in, with a pattern that can be used. -/
structure InputFormat where
  text : String
  fits : compiledSize (tokenize text.toList) ≤ sizeLimit
  deriving DecidableEq

namespace InputFormat

/-- The input format of a text. It fails only if the pattern is too large. -/
def compile (text : String) : Except Error InputFormat :=
  if h : compiledSize (tokenize text.toList) ≤ sizeLimit then .ok ⟨text, h⟩
  else .error (.invalidInputFormat text (.tooLarge sizeLimit))

/-- The tokens of the format. -/
def tokens (f : InputFormat) : List Token :=
  tokenize f.text.toList

/-- The tags of the format, one for each group of its pattern. -/
def tags (f : InputFormat) : List Tag :=
  f.tokens.filterMap Token.tag?

/-- The slots that the groups are read by; an ordinal has none. -/
def slots (f : InputFormat) : List (Option Slot) :=
  f.tags.map Tag.slot?

/-- The pattern of the format. -/
def pattern (f : InputFormat) : List Char :=
  patternOf f.tokens

theorem compile_eq_ok_iff {text : String} {f : InputFormat} :
    compile text = .ok f ↔ f.text = text := by
  unfold compile
  constructor
  · intro h
    split at h
    · simp only [Except.ok.injEq] at h; rw [← h]
    · simp at h
  · rintro rfl
    exact dif_pos f.fits

end InputFormat

end Redate
