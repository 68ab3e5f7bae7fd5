/-
Log records: what a run reports about itself, apart from its results. Every record is kept with
its level, and the level asked for decides only which of them are shown.
-/
import Redate.Text.ControlSequence

namespace Redate

/-- Levels from the most to the least urgent. -/
inductive Level
  | error
  | warn
  | info
  | debug
  | trace
  deriving DecidableEq, Repr

namespace Level

/-- The place of the level among all, the most urgent first. -/
def rank : Level → Nat
  | error => 1
  | warn => 2
  | info => 3
  | debug => 4
  | trace => 5

/-- The word for the level in a setting. -/
def name : Level → String
  | error => "error"
  | warn => "warn"
  | info => "info"
  | debug => "debug"
  | trace => "trace"

/-- The name in capitals, filled up to five places. -/
def label : Level → String
  | error => "ERROR"
  | warn => "WARN "
  | info => "INFO "
  | debug => "DEBUG"
  | trace => "TRACE"

end Level

/-- How much of a log is shown: the records up to a level, or none. -/
inductive Verbosity
  | silent
  | upTo (l : Level)
  deriving DecidableEq, Repr

namespace Verbosity

/-- The rank of the last level that is shown. -/
def rank : Verbosity → Nat
  | silent => 0
  | upTo l => l.rank

/-- The verbosity that a setting asks for. Without a setting warnings are shown, with an empty
one errors only; level names may have any case, and a word that is no level shows nothing. This is
about settings of a single word. Other filters are not covered: names of modules, levels for single
modules such as `name=level`, and several filters with commas between them are no levels either, and
show nothing here. -/
def ofSetting : Option String → Verbosity
  | none => upTo .warn
  | some "" => upTo .error
  | some word =>
    match [Level.error, .warn, .info, .debug, .trace].find? (·.name == word.toLower) with
    | some l => upTo l
    | none => silent

end Verbosity

/-- The part of the program that a record comes from. -/
inductive Origin
  | inputFormat
  | converter
  | fileConversion
  deriving DecidableEq, Repr

/-- What the part is called in records. -/
def Origin.name : Origin → String
  | inputFormat => "dateconv::domain::input_format"
  | converter => "dateconv::domain::converter"
  | fileConversion => "dateconv::application::convert_file"

/-- Something that a run reports, how urgent it is, and where it comes from. -/
structure Record where
  level : Level
  origin : Origin
  message : String
  deriving DecidableEq, Repr

/-- A record in full; further lines of its message are indented under the first. -/
def Record.text (r : Record) : String :=
  s!"[{r.level.label} {r.origin.name}] "
    ++ String.ofList (r.message.toList.flatMap fun c => if c = '\n' then "\n    ".toList else [c])
    ++ "\n"

/-- What is written of a record. Control sequences in its message are left out, and one that has no
end takes the rest of the record with it, its line end included, but nothing of the next record. -/
def Record.line (r : Record) : String :=
  visible .stream r.text

/-- The records of a log that a verbosity shows. -/
def shown (v : Verbosity) (log : List Record) : List Record :=
  log.filter (·.level.rank ≤ v.rank)

theorem shown_shown {v w : Verbosity} (h : v.rank ≤ w.rank) (log : List Record) :
    shown v (shown w log) = shown v log := by
  unfold shown
  rw [List.filter_filter]
  refine List.filter_congr fun r _ => ?_
  simp only [Bool.and_eq_left_iff_imp, decide_eq_true_eq]
  omega

/-- What is written of a log. -/
def showLog (v : Verbosity) (log : List Record) : String :=
  String.join ((shown v log).map Record.line)

end Redate
