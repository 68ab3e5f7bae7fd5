/-
Format tags and the tokens of formats. Tags are ten two-character names for the parts of a date; all
but the ordinal suffixes carry a field of the date. A format is cut into tokens: at every position
the next two characters are tried as a tag first, and if they name none, one character is literal.
The main statement says that the tokens spell the format.
-/
import Redate.Template

namespace Redate

/-! ## Tags -/

/-- A part of a date in one of its written forms, or the suffix of an ordinal. -/
inductive Tag
  | day
  | paddedDay
  | month
  | paddedMonth
  | monthName
  | shortMonthName
  | optionalOrdinal
  | ordinal
  | shortYear
  | year
  deriving DecidableEq, Repr

namespace Tag

/-- All tags, sorted by key. -/
def all : List Tag :=
  [day, paddedDay, month, paddedMonth, monthName, shortMonthName, optionalOrdinal, ordinal,
    shortYear, year]

/-- The two characters that name the tag in a format. -/
def key : Tag → List Char
  | day => ['d', '1']
  | paddedDay => ['d', '2']
  | month => ['m', '1']
  | paddedMonth => ['m', '2']
  | monthName => ['m', 'l']
  | shortMonthName => ['m', 's']
  | optionalOrdinal => ['o', 'o']
  | ordinal => ['o', 'r']
  | shortYear => ['y', '2']
  | year => ['y', '4']

/-- The tag of this name. -/
def ofKey? (key : List Char) : Option Tag :=
  all.find? (·.key == key)

theorem ofKey?_key (t : Tag) : ofKey? t.key = some t := by
  cases t <;> rfl

theorem key_of_ofKey? {key : List Char} {t : Tag} (h : ofKey? key = some t) : t.key = key := by
  simpa using List.find?_some h

theorem length_key (t : Tag) : t.key.length = 2 := by
  cases t <;> rfl

/-- What the tag stands for, in the words of the help. -/
def description : Tag → String
  | day => "Non zero padded day number (i.e. 2)"
  | paddedDay => "Zero padded day number (i.e. 02)"
  | month => "Non zero padded month number (i.e. 1)"
  | paddedMonth => "Zero padded month number (i.e. 01)"
  | monthName => "Long month name (i.e. January)"
  | shortMonthName => "Short month name (i.e. Jan)"
  | optionalOrdinal => "Optional ordinal string (i.e. st, nd, rd, th)"
  | ordinal => "Required ordinal string (i.e. st, nd, rd, th)"
  | shortYear => "Year number without century (i.e. 06)"
  | year => "Year number including century (i.e. 2006)"

/-- The template slot that reads and writes the tag's field. An ordinal suffix has none: it is
checked for its shape and tells nothing about the date. -/
def slot? : Tag → Option Slot
  | day => some .day
  | paddedDay => some .paddedDay
  | month => some .month
  | paddedMonth => some .paddedMonth
  | monthName => some .monthName
  | shortMonthName => some .shortMonthName
  | optionalOrdinal | ordinal => none
  | shortYear => some .shortYear
  | year => some .year

/-- The tag's part of a date. An optional ordinal is always written. -/
def render (t : Tag) (d : Date) : List Char :=
  match t.slot? with
  | some s => s.render d
  | none => ordinalSuffix d.day

end Tag

/-- The tags with their descriptions, one to a line. -/
def tagList : String :=
  "Date format components:\n"
    ++ String.join (Tag.all.map fun t => s!"   {String.ofList t.key} - {t.description}\n")

/-! ## Tokens -/

/-- A piece of a format: a tag, or a character that stands for itself. -/
inductive Token
  | tag (t : Tag)
  | literal (c : Char)
  deriving DecidableEq, Repr

/-- How the token is written in a format. -/
def Token.text : Token → List Char
  | .tag t => t.key
  | .literal c => [c]

/-- The tag of a token, if it is one. -/
def Token.tag? : Token → Option Tag
  | .tag t => some t
  | .literal _ => none

/-- The tokens of a format. -/
def tokenize : List Char → List Token
  | [] => []
  | [c] => [.literal c]
  | a :: b :: rest =>
    match Tag.ofKey? [a, b] with
    | some t => .tag t :: tokenize rest
    | none => .literal a :: tokenize (b :: rest)

/-- The first token of a format and what follows it, read by bytes: the first two bytes, if no
character is cut, are looked up as a key, and else the first character is a literal. There is none
if what follows the key cannot be cut off. -/
def nextToken? : List Char → Option (Token × List Char)
  | [] => none
  | c :: rest =>
    match (Span.slice? ⟨0, 2⟩ (c :: rest)).bind Tag.ofKey? with
    | some t => (Span.slice? ⟨2, byteLength (c :: rest)⟩ (c :: rest)).map (Token.tag t, ·)
    | none => some (.literal c, rest)

/-- The tokens of a format, read by bytes one after the other. -/
def tokensByBytes (format : List Char) : Option (List Token) :=
  itemsBy? nextToken? format

theorem flatMap_text_tokenize (format : List Char) :
    (tokenize format).flatMap Token.text = format := by
  fun_induction tokenize format with
  | case1 => rfl
  | case2 c => rfl
  | case3 a b rest t ht ih => simp [Token.text, Tag.key_of_ofKey? ht, ih]
  | case4 a b rest _ ih => simpa [Token.text] using ih

end Redate
