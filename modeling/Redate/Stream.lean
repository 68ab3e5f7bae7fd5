/-
A conversion from an input to an output. The input is read to its end and checked before the output
is opened, so a bad input costs no output, and both may be the same file. Input and output hold
bytes; texts are bytes in UTF-8, strict in both directions. A stream is a source of bytes that may
fail on the way, and a sink that may be too small.
-/
import Redate.Converter

namespace Redate

/-! ## Texts as bytes -/

/-- The text that bytes hold, if they are valid UTF-8. -/
def decodeText (bytes : ByteArray) : Except FileError (List Char) :=
  match String.fromUTF8? bytes with
  | some text => .ok text.toList
  | none => .error .notText

/-- The bytes of a text. -/
def encodeText (text : List Char) : ByteArray :=
  (String.ofList text).toUTF8

theorem fromUTF8?_toUTF8 (s : String) : String.fromUTF8? s.toUTF8 = some s :=
  dif_pos s.isValidUTF8

theorem decodeText_encodeText (text : List Char) : decodeText (encodeText text) = .ok text := by
  rw [decodeText, encodeText, fromUTF8?_toUTF8]
  exact congrArg Except.ok String.toList_ofList

theorem encodeText_of_decodeText {bytes : ByteArray} {text : List Char}
    (h : decodeText bytes = .ok text) : encodeText text = bytes := by
  unfold decodeText at h
  split at h
  · next s hs =>
    simp only [Except.ok.injEq] at h
    subst h
    unfold String.fromUTF8? at hs
    split at hs
    · simp only [Option.some.injEq] at hs
      rw [encodeText, String.ofList_toList, ← hs]; rfl
    · simp at hs
  · simp at h

/-! ## Inputs and outputs -/

/-- Where a conversion reads and writes, with effects in `m`. Opening the output gives the action
that writes to it. -/
structure Endpoints (m : Type → Type) where
  read : m (Except FileError ByteArray)
  openOutput : m (Except FileError (ByteArray → m (Except FileError Unit)))

/-- The files that a program works with, with effects in `m`. Creating a file empties it. -/
structure FileSystem (m : Type → Type) where
  read : String → m (Except FileError ByteArray)
  create : String → m (Except FileError (ByteArray → m (Except FileError Unit)))

/-- Reading one file and writing another. -/
def FileSystem.endpoints {m : Type → Type} (fs : FileSystem m) (source target : String) :
    Endpoints m :=
  ⟨fs.read source, fs.create target⟩

namespace Converter

variable {m : Type → Type} [Monad m]

/-- Converts what is read and writes it, with the log records on the way. -/
def transfer (c : Converter) (e : Endpoints m) : m (Except FileError Report × List Record) := do
  match ← e.read with
  | .error cause => return (.error cause, [])
  | .ok bytes =>
    match decodeText bytes with
    | .error cause => return (.error cause, [])
    | .ok text =>
      match ← e.openOutput with
      | .error cause => return (.error cause, [])
      | .ok write =>
        let report := c.report text
        match ← write (encodeText report.text) with
        | .error cause => return (.error cause, report.log)
        | .ok () => return (.ok report, report.log)

end Converter

/-- The record of a file that was written. -/
def Report.writtenRecord (r : Report) (target : String) : Record :=
  ⟨.info, .fileConversion,
    s!"Wrote {target} ({r.replaced} date(s) converted, {r.skipped.length} left unchanged)"⟩

namespace Converter

variable {m : Type → Type} [Monad m]

/-- Converts one file into another; the two names may be of the same file. -/
def convertFile (c : Converter) (fs : FileSystem m) (source target : String) :
    m (Except FileError Report × List Record) := do
  match ← c.transfer (fs.endpoints source target) with
  | (.error cause, log) => return (.error cause, log)
  | (.ok report, log) => return (.ok report, log ++ [report.writtenRecord target])

end Converter

/-! ## Streams -/

/-- Bytes to read. A source that fails after `n` bytes fails when more than those are asked for,
and reading to the end always asks once more. -/
structure Source where
  data : ByteArray
  failsAfter : Option Nat

/-- All bytes of a source. -/
def Source.readAll (s : Source) : Except FileError ByteArray :=
  match s.failsAfter with
  | some n => if n ≤ s.data.size then .error (.other "read failed") else .ok s.data
  | none => .ok s.data

/-- Bytes written so far, and how many a sink takes altogether. -/
structure Sink where
  written : ByteArray
  limit : Option Nat

/-- How many more bytes a sink takes, of `n` bytes. -/
def Sink.room (s : Sink) (n : Nat) : Nat :=
  match s.limit with
  | some limit => min n (limit - s.written.size)
  | none => n

/-- Writes as many of the bytes as the sink takes, and fails if it does not take them all. -/
def Sink.writeAll (bytes : ByteArray) : StateM Sink (Except FileError Unit) := fun s =>
  let taken := bytes.extract 0 (s.room bytes.size)
  let s' := { s with written := s.written ++ taken }
  if s.room bytes.size < bytes.size then (.error .writerFull, s') else (.ok (), s')

/-- Reading from a source and writing to the sink at hand. -/
def Source.endpoints (s : Source) : Endpoints (StateM Sink) where
  read := pure s.readAll
  openOutput := pure (.ok Sink.writeAll)

/-- The conversion of a source into a sink, and the sink afterwards. -/
def Converter.convertStream (c : Converter) (source : Source) (sink : Sink) :
    Except FileError Report × Sink :=
  let ((result, _), sink) := c.transfer source.endpoints sink
  (result, sink)

end Redate
