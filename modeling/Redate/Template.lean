/-
Date templates: literal characters mixed with slots, each for one field of a date. A date is written
through a template by copying the literals and writing each slot's field. It is read back by walking
template and text together: each slot takes its text from the front, and what it took is never given
back. Fields that the template does not mention keep their defaults, and of a field that it mentions
twice the last reading counts. The walk is also given by bytes, as far as its cuts and numbers are
defined. The main statement says that reading a template loses none of its text.
-/
import Redate.Calendar
import Redate.Text.Bytes
import Redate.Text.Words

namespace Redate

/-! ## Templates -/

/-- A field of a date in one of its written forms. -/
inductive Slot
  | year
  | shortYear
  | paddedMonth
  | month
  | shortMonthName
  | monthName
  | paddedDay
  | day
  deriving DecidableEq, Repr

namespace Slot

/-- How the slot is written in a template. -/
def spelling : Slot → List Char
  | year => ['%', 'Y']
  | shortYear => ['%', 'y']
  | paddedMonth => ['%', 'm']
  | month => ['%', '-', 'm']
  | shortMonthName => ['%', 'b']
  | monthName => ['%', 'B']
  | paddedDay => ['%', 'd']
  | day => ['%', '-', 'd']

/-- What the slot is called in messages. -/
def name : Slot → String
  | year => "four-digit year"
  | shortYear => "two-digit year"
  | paddedMonth => "zero padded month"
  | month => "month"
  | shortMonthName => "abbreviated month name"
  | monthName => "month name"
  | paddedDay => "zero padded day"
  | day => "day"

/-- All slots, in the order in which their spellings are tried. -/
def all : List Slot :=
  [year, shortYear, paddedMonth, month, shortMonthName, monthName, paddedDay, day]

end Slot

/-- One place of a template: a slot, or a character that stands for itself. -/
inductive Template.Item
  | slot (s : Slot)
  | literal (c : Char)
  deriving DecidableEq, Repr

/-- What dates look like, item by item. -/
abbrev Template := List Template.Item

namespace Template

/-- How the item is written in a template. -/
def Item.text : Item → List Char
  | .slot s => s.spelling
  | .literal c => [c]

/-- The template that a text spells. A percent sign that opens no slot is a literal like any
other character. -/
def ofText : List Char → Template
  | [] => []
  | '%' :: 'Y' :: rest => .slot .year :: ofText rest
  | '%' :: 'y' :: rest => .slot .shortYear :: ofText rest
  | '%' :: 'm' :: rest => .slot .paddedMonth :: ofText rest
  | '%' :: '-' :: 'm' :: rest => .slot .month :: ofText rest
  | '%' :: 'b' :: rest => .slot .shortMonthName :: ofText rest
  | '%' :: 'B' :: rest => .slot .monthName :: ofText rest
  | '%' :: 'd' :: rest => .slot .paddedDay :: ofText rest
  | '%' :: '-' :: 'd' :: rest => .slot .day :: ofText rest
  | c :: rest => .literal c :: ofText rest

/-- The first item of a template and what follows it: the slot whose spelling begins the template,
cut off by the length of the spelling, and else the first character. -/
def nextItem? : List Char → Option (Item × List Char)
  | [] => none
  | c :: rest =>
    match Slot.all.find? (·.spelling.isPrefixOf (c :: rest)) with
    | some s =>
      (Span.slice? ⟨byteLength s.spelling, byteLength (c :: rest)⟩ (c :: rest)).map (Item.slot s, ·)
    | none => some (.literal c, rest)

/-- The items of a template, read by bytes one after the other. -/
def itemsByBytes (template : List Char) : Option Template :=
  itemsBy? nextItem? template

theorem flatMap_text_ofText (text : List Char) : (ofText text).flatMap Item.text = text := by
  fun_induction ofText text <;> simp_all [Item.text, Slot.spelling]

end Template

/-! ## Writing -/

/-- The slot's field of a date. -/
def Slot.render (d : Date) : Slot → List Char
  | year => yearText d.year
  | shortYear => padded 2 (d.year % 100).toNat
  | paddedMonth => padded 2 d.month
  | month => padded 1 d.month
  | shortMonthName => nameOfMonth .short d.month
  | monthName => nameOfMonth .full d.month
  | paddedDay => padded 2 d.day
  | day => padded 1 d.day

namespace Template

/-- What is written for an item. -/
def Item.render (d : Date) : Item → List Char
  | .slot s => s.render d
  | .literal c => [c]

/-- The text of a date in the form that a template lays down. -/
def render (t : Template) (d : Date) : List Char :=
  t.flatMap (Item.render d)

@[simp] theorem render_nil (d : Date) : render [] d = [] := rfl

@[simp] theorem render_cons (i : Item) (t : Template) (d : Date) :
    render (i :: t) d = i.render d ++ t.render d := rfl

@[simp] theorem render_append (t u : Template) (d : Date) :
    render (t ++ u) d = t.render d ++ u.render d := List.flatMap_append

end Template

/-! ## What a slot takes -/

/-- As many digits as there are at the front, up to `most`: their value and what follows. -/
def takeDigits (least most : Nat) (text : List Char) : Option (Nat × List Char) :=
  let digits := (text.take most).takeWhile Char.isDigit
  if digits.length < least then none
  else some (digitsValue digits, text.drop digits.length)

/-- A month name at the front, in any ASCII case: its month number and what follows. -/
def takeMonthName (l : NameLength) (text : List Char) : Option (Nat × List Char) :=
  ((monthNames l).zipIdx 1).findSome? fun (name, month) =>
    (dropWord? sameLetter name text).map fun rest => (month, rest)

/-- The number that a slot reads at the front of a text, and what follows. -/
def Slot.take : Slot → List Char → Option (Nat × List Char)
  | year => takeDigits 4 4
  | shortYear | paddedMonth | paddedDay => takeDigits 2 2
  | month | day => takeDigits 1 2
  | shortMonthName => takeMonthName .short
  | monthName => takeMonthName .full

namespace Template

/-! ## Fields -/

/-- The numbers read so far, which need not name a day. -/
structure Fields where
  year : Int := 0
  month : Nat := 1
  day : Nat := 1
  deriving DecidableEq, Repr

/-- The fields after the reading of one more slot. -/
def Fields.set (f : Fields) (n : Nat) : Slot → Fields
  | .year => { f with year := n }
  | .shortYear => { f with year := expandYear n.toUInt32 }
  | .paddedMonth | .month | .shortMonthName | .monthName => { f with month := n }
  | .paddedDay | .day => { f with day := n }

/-! ## Failures -/

/-- Why a text is no date of a template. -/
inductive ParseError
  | endsEarly
  | differs (expected found : Char)
  /-- The text where the slot begins, up to the next delimiter, counts as its value. -/
  | badValue (s : Slot) (value : List Char)
  | leftOver (text : List Char)
  | noSuchDay (f : Fields)
  deriving DecidableEq, Repr

/-- What the error says. -/
def ParseError.message : ParseError → String
  | endsEarly => "value ended before the template was complete"
  | differs expected found => s!"expected '{expected}' but found '{found}'"
  | badValue s value => s!"'{String.ofList value}' is not a valid {s.name} value"
  | leftOver text => s!"unexpected trailing text '{String.ofList text}'"
  | noSuchDay f =>
    String.ofList (signedPadded 4 f.year ++ '-' :: padded 2 f.month ++ '-' :: padded 2 f.day)
      ++ " is not a valid calendar date"

/-! ## The walk -/

/-- The character that separates fields written one after the other. -/
def delimiter : Char := ':'

/-- The fields of a text that spells the template from here on, with nothing left over. -/
def walk : Template → Fields → List Char → Except ParseError Fields
  | [], f, [] => .ok f
  | [], _, c :: rest => .error (.leftOver (c :: rest))
  | _ :: _, _, [] => .error .endsEarly
  | .literal e :: t, f, c :: rest => if c = e then walk t f rest else .error (.differs e c)
  | .slot s :: t, f, c :: rest =>
    match s.take (c :: rest) with
    | some (n, rest') => walk t (f.set n s) rest'
    | none => .error (.badValue s ((c :: rest).takeWhile (· != delimiter)))

/-- The day that the fields name. -/
def Fields.toDate (f : Fields) : Except ParseError Date :=
  match Date.of? f.year f.month f.day with
  | some d => .ok d
  | none => .error (.noSuchDay f)

/-- The date that a text spells through a template. -/
def parse (t : Template) (text : List Char) : Except ParseError Date :=
  match t.walk {} text with
  | .ok f => f.toDate
  | .error e => .error e

/-! ## Fields captured one by one -/

/-- The template of some slots, each closed by the delimiter. -/
def ofSlots (slots : List Slot) : Template :=
  slots.flatMap fun s => [.slot s, .literal delimiter]

/-- The date of fields that were captured one by one: their texts, each closed by the delimiter,
are read through the template of their slots. -/
def parseFields (fields : List (Slot × List Char)) : Except ParseError Date :=
  (ofSlots (fields.map (·.1))).parse (fields.flatMap fun f => f.2 ++ [delimiter])

end Template

/-! ## Reading by bytes -/

/-- As many digits as there are at the front, up to `most`, as their length and a word; undefined
where they cannot be cut off, or the word is too small for them. -/
def takeDigits? (least most : Nat) (text : List Char) : Option (Option (Nat × UInt32)) :=
  let n := countDigits most text
  if n < least then some none
  else do
    let digits ← Span.slice? ⟨0, n⟩ text
    let value ← wordOf? digits
    some (some (n, value))

/-- A month name at the front: its length, and its month number as a word. A name that would end
inside a character is passed over. -/
def findMonthName? (l : NameLength) (text : List Char) : Option (Nat × UInt32) :=
  ((monthNames l).zipIdx 1).findSome? fun (name, month) =>
    ((Span.slice? ⟨0, byteLength name⟩ text).filter (sameBytes · name)).map fun _ =>
      (byteLength name, month.toUInt32)

/-- What the slot takes at the front of a text, if anything; undefined where a cut or a number
is. -/
def Slot.takeBytes? : Slot → List Char → Option (Option (Nat × UInt32))
  | year => takeDigits? 4 4
  | shortYear | paddedMonth | paddedDay => takeDigits? 2 2
  | month | day => takeDigits? 1 2
  | shortMonthName => fun text => some (findMonthName? .short text)
  | monthName => fun text => some (findMonthName? .full text)

namespace Template

/-- The fields after the reading of one more slot, where the number has room in a signed word, also
with a century added to it. -/
def Fields.setWord? (f : Fields) (n : UInt32) (s : Slot) : Option Fields :=
  if 2000 + n.toNat < 0x80000000 then some (f.set n.toNat s) else none

/-- The walk by bytes. -/
def walkBytes? : Template → Fields → List Char → Option (Except ParseError Fields)
  | [], f, [] => some (.ok f)
  | [], _, c :: rest => some (.error (.leftOver (c :: rest)))
  | _ :: _, _, [] => some (.error .endsEarly)
  | .literal e :: t, f, c :: rest =>
    if c = e then do
      let behind ← Span.slice? ⟨c.utf8Size, byteLength (c :: rest)⟩ (c :: rest)
      walkBytes? t f behind
    else some (.error (.differs e c))
  | .slot s :: t, f, c :: rest => do
    match ← s.takeBytes? (c :: rest) with
    | some (length, n) =>
      let behind ← Span.slice? ⟨length, byteLength (c :: rest)⟩ (c :: rest)
      let f ← f.setWord? n s
      walkBytes? t f behind
    | none => some (.error (.badValue s ((c :: rest).takeWhile (· != delimiter))))

/-- The date that a text spells through a template, both read by bytes. -/
def parseBytes? (template text : List Char) : Option (Except ParseError Date) := do
  let t ← itemsByBytes template
  match ← walkBytes? t {} text with
  | .ok f => some f.toDate
  | .error e => some (.error e)

end Template

end Redate
