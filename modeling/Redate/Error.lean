/-
What can go wrong in a run: a format whose pattern cannot be used, a file or stream that fails, or
wrong usage. Errors are causes; their wording and exit codes are functions of the cause.
-/
import Redate.SystemError

namespace Redate

/-- Why a pattern cannot be used. -/
inductive PatternError
  | malformed (description : String)
  | tooLarge (limit : Nat)
  deriving DecidableEq, Repr

/-- What the error says. -/
def PatternError.message : PatternError → String
  | malformed description => description
  | tooLarge limit => s!"Compiled regex exceeds size limit of {limit} bytes."

/-- Why a file or stream could not be read or written. -/
inductive FileError
  /-- The operating system reported the error of this number. -/
  | system (code : Int)
  /-- The name of the file holds a NUL, with which names end. -/
  | nulInName
  /-- The bytes read are no UTF-8 text. -/
  | notText
  /-- The writer took only a part of the bytes. -/
  | writerFull
  | other (description : String)
  deriving DecidableEq, Repr

namespace FileError

/-- Nothing has this name. -/
@[match_pattern] abbrev notFound : FileError := system 2

/-- A file stands where the path goes on. -/
@[match_pattern] abbrev notADirectory : FileError := system 20

/-- A directory stands where a file is asked for. -/
@[match_pattern] abbrev isADirectory : FileError := system 21

/-- A name, or the whole path, is over its limit. -/
@[match_pattern] abbrev nameTooLong : FileError := system 36

/-- What the error says. -/
def message : FileError → String
  | system code => s!"{systemErrorText code} (os error {code})"
  | nulInName => "file name contained an unexpected NUL byte"
  | notText => "stream did not contain valid UTF-8"
  | writerFull => "failed to write whole buffer"
  | other description => description

end FileError

/-- Why a run ends without its result. -/
inductive Error
  | invalidInputFormat (format : String) (cause : PatternError)
  | file (cause : FileError)
  | usage (description : String)
  deriving DecidableEq, Repr

namespace Error

/-- What the error says, in one line. -/
def message : Error → String
  | invalidInputFormat format cause => s!"Invalid input format '{format}': {cause.message}"
  | file cause => s!"IO error: {cause.message}"
  | usage description => s!"Usage error: {description}"

/-- The code that a program exits with. -/
def exitCode : Error → Nat
  | file _ => 1
  | usage _ => 2
  | invalidInputFormat _ _ => 3

/-- The message for a user, with a list of what to try. -/
def advice : Error → String
  | invalidInputFormat format cause =>
    s!"Invalid input format: '{format}'\n{cause.message}\n\n"
      ++ "Suggestions:\n"
      ++ "• Run 'dateconv --help' to see the available format tags\n"
      ++ "• Quote the format so the shell passes it as one argument"
  | file cause =>
    s!"IO error: {cause.message}\n\n"
      ++ "Suggestions:\n"
      ++ "• Check that the input file exists and is readable UTF-8 text\n"
      ++ "• Check that the output directory exists and is writable"
  | e => e.message

end Error
end Redate
