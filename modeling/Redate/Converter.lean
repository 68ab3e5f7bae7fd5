/-
Converting the dates of a text. A converter finds every date in its input format, reads it, and
writes it in its output format; a match that is no date stays as it is and is reported. The matches
are also gone through one by one, with every cut made by bytes as far as it is defined.
-/
import Redate.Format.Input
import Redate.Format.Output
import Redate.Log
import Redate.Matching.Scan

namespace Redate

open Template (ParseError delimiter parseFields)

/-- What dates are looked for, and how they are written. -/
structure Converter where
  input : InputFormat
  output : OutputFormat
  deriving DecidableEq

/-- A match that was left unchanged, and why. -/
structure Skipped where
  span : Span
  text : List Char
  reason : ParseError
  deriving DecidableEq, Repr

/-- A converted text, how many dates in it were replaced, and the matches that were not. -/
structure Report where
  text : List Char
  replaced : Nat
  skipped : List Skipped
  deriving DecidableEq, Repr

/-! ## Matches and their dates -/

/-- The fields that a match captures of a text: the slots of the format are paired with the groups
in order, as far as both go, and an ordinal captures no field. A group that is left out counts as
empty text. -/
def capturedFields (slots : List (Option Slot)) (groups : List (Option Span))
    (text : List Char) : List (Slot × List Char) :=
  (slots.zip groups).filterMap fun (slot?, group?) =>
    slot?.map fun s => (s, (group?.map (·.slice text)).getD [])

namespace Converter

/-- The converter of two formats. -/
def compile (input output : String) : Except Error Converter :=
  (InputFormat.compile input).map fun f => ⟨f, .compile output⟩

/-- The converter with another input format. -/
def withInput (c : Converter) (input : String) : Except Error Converter :=
  (InputFormat.compile input).map fun f => { c with input := f }

/-- The converter with another output format. -/
def withOutput (c : Converter) (output : String) : Converter :=
  { c with output := .compile output }

/-- The text of a date in the output format. -/
def render (c : Converter) (d : Date) : List Char :=
  c.output.render d

/-- The matches of the input format in a text. -/
def find (c : Converter) (text : List Char) : List Match :=
  findMatches c.input.tokens text

/-- The date that a match of a text stands for. -/
def parseMatch (c : Converter) (text : List Char) (m : Match) : Except ParseError Date :=
  parseFields (capturedFields c.input.slots m.groups text)

theorem compile_eq_ok_iff {input output : String} {c : Converter} :
    compile input output = .ok c ↔ c.input.text = input ∧ c.output.text = output := by
  rw [← InputFormat.compile_eq_ok_iff, ← OutputFormat.compile_eq_iff, compile]
  obtain ⟨f, g⟩ := c
  cases InputFormat.compile input <;> simp [Except.map]

end Converter

/-! ## Conversion -/

/-- What a segment comes to. -/
inductive Outcome
  | kept (c : Char)
  | replaced (o : Occurrence) (d : Date)
  | skipped (o : Occurrence) (reason : ParseError)
  deriving DecidableEq, Repr

namespace Outcome

/-- What becomes of a segment: a date that can be read is replaced. -/
def ofSegment : Segment → Outcome
  | .plain c => kept c
  | .found o =>
    match parseFields o.fields with
    | .ok d => replaced o d
    | .error e => skipped o e

/-- The text that is written for the segment. -/
def text (output : OutputFormat) : Outcome → List Char
  | kept c => [c]
  | replaced _ d => output.render d
  | skipped o _ => o.text

/-- The outcome is a date that was replaced. -/
def isReplaced : Outcome → Bool
  | replaced .. => true
  | _ => false

/-- What is reported of the outcome, if it is a match left alone. -/
def skipped? : Outcome → Option Skipped
  | skipped o reason => some ⟨o.span, o.text, reason⟩
  | _ => none

end Outcome

namespace Converter

/-- What becomes of a text, segment by segment. -/
def outcomes (c : Converter) (text : List Char) : List Outcome :=
  (scan c.input.tokens 0 text).map Outcome.ofSegment

/-- The conversion of a text. -/
def report (c : Converter) (text : List Char) : Report :=
  let outcomes := c.outcomes text
  { text := outcomes.flatMap (Outcome.text c.output)
    replaced := outcomes.countP Outcome.isReplaced
    skipped := outcomes.filterMap Outcome.skipped? }

/-- The text as it is after its conversion. -/
def convert (c : Converter) (text : List Char) : List Char :=
  (c.report text).text

end Converter

/-! ## Match by match -/

namespace Report

/-- The report on a text without dates, which stays as it is. -/
def kept (text : List Char) : Report :=
  ⟨text, 0, []⟩

/-- Two reports in a row: texts and skipped matches are joined, and counts added. -/
instance : Append Report where
  append r r' := ⟨r.text ++ r'.text, r.replaced + r'.replaced, r.skipped ++ r'.skipped⟩

end Report

/-- The fields of slots and groups in pairs, where the groups can be cut out of the text. -/
def fieldsByBytes? (text : List Char) :
    List (Option Slot × Option Span) → Option (List (Slot × List Char))
  | [] => some []
  | (none, _) :: pairs => fieldsByBytes? text pairs
  | (some s, g) :: pairs => do
    let w ← g.elim (some []) (·.slice? text)
    let fields ← fieldsByBytes? text pairs
    some ((s, w) :: fields)

/-- How far a conversion has come: its report so far, on the text up to byte `copiedTo`. -/
structure Progress where
  report : Report
  copiedTo : Nat

namespace Converter

/-- The date of a match: the spellings of the slots make a template, the groups a text for it. -/
def parseMatchBytes? (c : Converter) (text : List Char) (m : Match) :
    Option (Except ParseError Date) := do
  let fields ← fieldsByBytes? text (c.input.slots.zip m.groups)
  Template.parseBytes? (fields.flatMap fun f => f.1.spelling ++ [delimiter])
    (fields.flatMap fun f => f.2 ++ [delimiter])

/-- What becomes of one match. -/
def reportOn (c : Converter) (m : Match) (original : List Char) : Except ParseError Date → Report
  | .ok d => ⟨c.render d, 1, []⟩
  | .error e => ⟨original, 0, [⟨m.span, original, e⟩]⟩

/-- The progress over one more match. -/
def step? (c : Converter) (text : List Char) (p : Progress) (m : Match) : Option Progress := do
  let gap ← Span.slice? ⟨p.copiedTo, m.span.start⟩ text
  let original ← m.span.slice? text
  let result ← c.parseMatchBytes? text m
  some ⟨p.report ++ .kept gap ++ c.reportOn m original result, m.span.stop⟩

/-- The progress over the first matches of a text. -/
def progress? (c : Converter) (text : List Char) (ms : List Match) : Option Progress :=
  ms.foldlM (c.step? text) ⟨.kept [], 0⟩

/-- The conversion of a text by bytes. -/
def reportByBytes? (c : Converter) (text : List Char) : Option Report := do
  let p ← c.progress? text (c.find text)
  let rest ← Span.slice? ⟨p.copiedTo, byteLength text⟩ text
  some (p.report ++ .kept rest)

end Converter

/-! ## Log records -/

/-- The warning about a match left alone. -/
def Skipped.record (s : Skipped) : Record :=
  { level := .warn
    origin := .converter
    message :=
      s!"Could not parse date '{String.ofList s.text}', leaving alone: {s.reason.message}" }

/-- The records of a conversion: a warning for each match left alone, then the counts. -/
def Report.log (r : Report) : List Record :=
  r.skipped.map Skipped.record ++
    [⟨.debug, .converter,
      s!"Converted {r.replaced} date(s), left {r.skipped.length} unchanged"⟩]

/-- The record of a format that compiled. -/
def InputFormat.record (f : InputFormat) : Record :=
  ⟨.debug, .inputFormat,
    s!"Compiled input format '{f.text}' to /{String.ofList f.pattern}/"⟩

end Redate
