import ShaderAlgebra.Command

/-!
# The program

Opens the request file, if one is asked for, and prints the outcome of the run.
-/

namespace ShaderAlgebra

open Command

/-- The wording of a failed access to a file: the system's own, with its number. -/
def accessReason : IO.Error → String
  | .alreadyExists _ code text | .otherError code text | .resourceBusy code text
  | .resourceVanished code text | .unsupportedOperation code text | .hardwareFault code text
  | .unsatisfiedConstraints code text | .illegalOperation code text | .protocolError code text
  | .timeExpired code text | .interrupted _ code text | .noFileOrDirectory _ code text
  | .invalidArgument _ code text | .permissionDenied _ code text | .resourceExhausted _ code text
  | .inappropriateType _ code text | .noSuchThing _ code text =>
    text ++ " (os error " ++ toString code ++ ")"
  | e => toString e

def readOpened (file : IO.FS.Handle) : IO Source :=
  tryCatch (return .content (← file.readBinToEnd).data.toList)
    fun e => return .unread (accessReason e)

def readSource (path : String) : IO Source :=
  tryCatch (do readOpened (← IO.FS.Handle.mk path .read))
    fun e => return .unopened (accessReason e)

def runProgram (args : List String) : IO UInt32 := do
  let invocation := Invocation.ofArguments args
  let source ← match invocation with
    | .build path _ => readSource path
    | _ => pure (.content [])
  let outcome := invocation.run fun _ => source
  IO.print outcome.stdout
  IO.eprint outcome.stderr
  return UInt32.ofNat outcome.exit

end ShaderAlgebra

def main (args : List String) : IO UInt32 := ShaderAlgebra.runProgram args
