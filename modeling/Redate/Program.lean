/-
The whole program: read the arguments, compile the formats, convert the file. Its result is a
value, and the verbosity decides only which log records come before the message. It runs on any
files, and as a command on the files of a store.
-/
import Redate.CommandLine
import Redate.Store

namespace Redate

/-- What a run leaves behind, apart from the files. -/
structure RunResult where
  exitCode : Nat
  output : String
  log : List Record
  message : String
  deriving DecidableEq, Repr

/-- What a run shows on its error channel: the records asked for, then the message. -/
def RunResult.errorOutput (v : Verbosity) (r : RunResult) : String :=
  showLog v r.log ++ r.message

/-- Help and version are what was asked for; any other argument error shows the tags as well. -/
def ArgumentError.result (e : ArgumentError) : RunResult :=
  match e with
  | .help | .version => ⟨0, e.message, [], ""⟩
  | _ => ⟨(Error.usage e.message).exitCode, "", [], e.messageOn .stream ++ "\n" ++ tagList⟩

/-- An error is reported with its advice, and decides the exit code. -/
def Error.result (e : Error) (log : List Record) : RunResult :=
  ⟨e.exitCode, "", log, s!"Error: {e.advice}\n"⟩

/-- The program on the words of a command line. -/
def runProgram {m : Type → Type} [Monad m] (fs : FileSystem m) (words : List String) :
    m RunResult := do
  match Arguments.ofWords words with
  | .error e => return e.result
  | .ok args =>
    match Converter.compile args.inputFormat args.outputFormat with
    | .error e => return e.result []
    | .ok c =>
      let (result, log) ← c.convertFile fs args.inputFile args.outputFile
      match result with
      | .error cause => return (Error.file cause).result (c.input.record :: log)
      | .ok _ => return ⟨0, "", c.input.record :: log, ""⟩

/-! ## Runs on a store -/

/-- A run of the program on the files of a store. -/
def Store.run (s : Store) (words : List String) : RunResult × Store :=
  (runProgram Store.fileSystem words : StateM Store RunResult) s

/-- What the caller of a command sees of it. -/
structure Seen where
  exitCode : Nat
  output : String
  errorOutput : String

/-- The program as a command, with a setting for its log. -/
def Store.command (s : Store) (setting : Option String) (words : List String) : Seen × Store :=
  let (result, s') := s.run words
  (⟨result.exitCode, result.output, result.errorOutput (.ofSetting setting)⟩, s')

end Redate
