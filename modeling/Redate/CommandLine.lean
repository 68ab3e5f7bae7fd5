/-
The command line: two files and two formats, in order. Words are read from left to right, and the
first word that does not fit decides the outcome; missing arguments are noticed at the end only.
-/
import Redate.Format.Token
import Redate.Text.ControlSequence
import Redate.Text.Similarity

namespace Redate

/-- The arguments that the program takes, by position. -/
inductive Parameter
  | inputFile
  | inputFormat
  | outputFile
  | outputFormat
  deriving DecidableEq, Repr

namespace Parameter

/-- All parameters, in the order of their positions. -/
def all : List Parameter :=
  [inputFile, inputFormat, outputFile, outputFormat]

/-- What stands for the value in usage lines. -/
def placeholder : Parameter → String
  | inputFile => "<INPUT_FILE>"
  | inputFormat => "<INPUT_FORMAT>"
  | outputFile => "<OUTPUT_FILE>"
  | outputFormat => "<OUTPUT_FORMAT>"

/-- What the parameter is for, in the words of the help. -/
def description : Parameter → String
  | inputFile => "File to read"
  | inputFormat => "Format of the dates in the input file (e.g. \"m2/d2/y4\")"
  | outputFile => "File to write; created or truncated"
  | outputFormat => "Format to write the dates in (e.g. \"y4-m2-d2\")"

/-- Whether the value may be empty: a format may, a file name may not. -/
def mayBeEmpty : Parameter → Bool
  | inputFile | outputFile => false
  | inputFormat | outputFormat => true

end Parameter

/-- The values of a command line, one for each parameter. -/
structure Arguments where
  inputFile : String
  inputFormat : String
  outputFile : String
  outputFormat : String
  deriving DecidableEq, Repr

/-- Why the words of a command line are no arguments, or ask for something else. -/
inductive ArgumentError
  | help
  | version
  | emptyValue (p : Parameter)
  /-- A word too many, and whether options are still read where it stands. -/
  | unexpected (word : String) (optionsAllowed : Bool)
  | missing (ps : List Parameter)
  deriving DecidableEq, Repr

/-! ## Reading the words -/

/-- What an option asks for. A word has to be one option and nothing else: several short options in
one word, such as `-hV`, and options with a value behind an equals sign, such as `--help=x`, are
left aside here and read as values. -/
def optionOf? (word : String) : Option ArgumentError :=
  if word = "-h" ∨ word = "--help" then some .help
  else if word = "-V" ∨ word = "--version" then some .version
  else none

/-- The values of the parameters still open. Until the first double dash, which is dropped, a word
may be an option; any other word is a value, with or without dashes. -/
def readValues (optionsAllowed : Bool) :
    List Parameter → List String → Except ArgumentError (List String)
  | [], [] => .ok []
  | p :: ps, [] => .error (.missing (p :: ps))
  | ps, word :: words =>
    if optionsAllowed ∧ word = "--" then readValues false ps words
    else
      match if optionsAllowed then optionOf? word else none with
      | some e => .error e
      | none =>
        match ps with
        | [] => .error (.unexpected word optionsAllowed)
        | p :: ps =>
          if word = "" ∧ ¬ p.mayBeEmpty then .error (.emptyValue p)
          else (readValues optionsAllowed ps words).map (word :: ·)

theorem length_of_readValues {optionsAllowed : Bool} {ps : List Parameter} {words vs : List String}
    (h : readValues optionsAllowed ps words = .ok vs) : vs.length = ps.length := by
  fun_induction readValues optionsAllowed ps words generalizing vs with
  | case1 => cases h; rfl
  | case2 => cases h
  | case3 _ _ _ _ _ ih => exact ih h
  | case4 => cases h
  | case5 => cases h
  | case6 => cases h
  | case7 optionsAllowed word words _ _ p ps _ ih =>
    cases hr : readValues optionsAllowed ps words with
    | error e => rw [hr] at h; cases h
    | ok ws => rw [hr] at h; cases h; simp [ih hr]

/-- The arguments of a command line. -/
def Arguments.ofWords (words : List String) : Except ArgumentError Arguments :=
  match readValues true Parameter.all words with
  | .error e => .error e
  | .ok [inputFile, inputFormat, outputFile, outputFormat] =>
    .ok ⟨inputFile, inputFormat, outputFile, outputFormat⟩
  -- not reached: there is one value for each parameter
  | .ok _ => .error (.missing Parameter.all)

/-! ## Words too many -/

/-- The options by their long names. -/
def optionNames : List String :=
  ["help", "version"]

/-- What a word too many looks like. -/
inductive Spelling
  | value (word : String)
  /-- A dash and a letter; what follows is not looked at. -/
  | shortOption (letter : Char)
  /-- Two dashes and a name, up to an equals sign. -/
  | longOption (name : List Char)
  deriving DecidableEq, Repr

namespace Spelling

/-- How a word is read where options are allowed. -/
def ofWord (word : String) : Spelling :=
  match word.toList with
  | '-' :: '-' :: rest => longOption (rest.takeWhile (· != '='))
  | '-' :: c :: _ => shortOption c
  | _ => value word

/-- The part of the word that names what it is. -/
def name : Spelling → String
  | value word => word
  | shortOption letter => String.ofList ['-', letter]
  | longOption name => "--" ++ String.ofList name

end Spelling

/-- What a user may have meant by a word too many. -/
inductive Guess
  | option (name : String)
  /-- The word itself, as a value in spite of its dash. -/
  | value
  deriving DecidableEq, Repr

/-- A long option may be a misspelt one; any other option may be a value. -/
def Spelling.guess? : Spelling → Option Guess
  | value _ => none
  | shortOption _ => some .value
  | longOption name =>
    match mostSimilar? name (optionNames.map String.toList) with
    | some similar => some (.option (String.ofList similar))
    | none => some .value

/-! ## Messages -/

/-- The words of a command line, with the options that are given. -/
def usageLine (options : List String) : String :=
  "Usage: dateconv " ++ " ".intercalate (options ++ Parameter.all.map Parameter.placeholder) ++ "\n"

/-- The line that points to the help. -/
def helpHint : String :=
  "For more information, try '--help'.\n"

/-- A parameter with its description, in columns. -/
def Parameter.helpLine (p : Parameter) : String :=
  "  " ++ String.ofList (p.placeholder.toList.rightpad 17 ' ') ++ p.description ++ "\n"

/-- What the help option is answered with. -/
def helpText : String :=
  "Rewrite dates in a text file from one format to another\n\n"
    ++ usageLine []
    ++ "\nArguments:\n"
    ++ String.join (Parameter.all.map Parameter.helpLine)
    ++ "\nOptions:\n"
    ++ "  -h, --help     Print help\n"
    ++ "  -V, --version  Print version\n\n"
    ++ tagList

/-- What the version option is answered with. -/
def versionText : String :=
  "dateconv 0.1.0\n"

/-- The tip that a guess gives about a word of this name. -/
def Guess.tip (name : String) : Guess → String
  | option similar => s!"  tip: a similar argument exists: '--{similar}'\n\n"
  | value => s!"  tip: to pass '{name}' as a value, use '-- {name}'\n\n"

/-- The options of the command line that a guess proposes. -/
def Guess.options : Guess → List String
  | option similar => ["--" ++ similar]
  | value => []

/-- The message about a word too many, with a tip if it may have been meant otherwise. Nothing of
the word but what is visible of its name is repeated. -/
def unexpectedMessage (m : Medium) (s : Spelling) : String :=
  let name := visible m s.name
  s!"error: unexpected argument '{name}' found\n\n"
    ++ (s.guess?.map (Guess.tip name)).getD ""
    ++ usageLine ((s.guess?.map Guess.options).getD [])
    ++ "\n" ++ helpHint

/-- The message as it is written to a medium. -/
def ArgumentError.messageOn (m : Medium) : ArgumentError → String
  | help => helpText
  | version => versionText
  | emptyValue p =>
    s!"error: a value is required for '{p.placeholder}' but none was supplied\n\n" ++ helpHint
  | unexpected word optionsAllowed =>
    unexpectedMessage m (if optionsAllowed then .ofWord word else .value word)
  | missing ps =>
    "error: the following required arguments were not provided:\n"
      ++ String.join (ps.map fun p => s!"  {p.placeholder}\n")
      ++ "\n" ++ usageLine [] ++ "\n" ++ helpHint

/-- The message as a text that is handed on. -/
def ArgumentError.message (e : ArgumentError) : String :=
  e.messageOn .text

end Redate
