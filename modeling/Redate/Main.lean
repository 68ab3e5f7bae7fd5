/-
The program on the files of the system.
-/
import Redate.Program

namespace Redate

/-- The number of a failure that the system reports; it may come negated. -/
def systemCode? : IO.Error → Option Int
  | .alreadyExists _ code _ | .otherError code _ | .resourceBusy code _
  | .resourceVanished code _ | .unsupportedOperation code _ | .hardwareFault code _
  | .unsatisfiedConstraints code _ | .illegalOperation code _ | .protocolError code _
  | .timeExpired code _ | .interrupted _ code _ | .noFileOrDirectory _ code _
  | .invalidArgument _ code _ | .permissionDenied _ code _ | .resourceExhausted _ code _
  | .inappropriateType _ code _ | .noSuchThing _ code _ => some code.toInt32.toInt.natAbs
  | .unexpectedEof | .userError _ => none

/-- The cause of a failure that the system reports. -/
def FileError.ofSystem (e : IO.Error) : FileError :=
  ((systemCode? e).map FileError.system).getD (.other (toString e))

/-- An action with its failure as a value. -/
def attempt {α : Type} (act : IO α) : BaseIO (Except FileError α) := do
  match ← act.toBaseIO with
  | .ok a => return .ok a
  | .error e => return .error (.ofSystem e)

/-- The files of the system, by their names. -/
def systemFiles : FileSystem BaseIO where
  read name := attempt (IO.FS.readBinFile name)
  create name := attempt do
    let handle ← IO.FS.Handle.mk name .write
    return fun bytes => attempt do
      handle.write bytes
      handle.flush

end Redate

/-- The program on the words it is called with, and the environment. -/
def main (words : List String) : IO UInt32 := do
  let setting ← IO.getEnv "DATECONV_LOG"
  let result ← (Redate.runProgram Redate.systemFiles words : BaseIO Redate.RunResult)
  (← IO.getStdout).putStr result.output
  (← IO.getStderr).putStr (result.errorOutput (.ofSetting setting))
  return result.exitCode.toUInt32
