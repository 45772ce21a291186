import ShaderAlgebra.Expr.Fingerprint
import ShaderAlgebra.Expr.SharedText
import ShaderAlgebra.Request.Read

/-!
# The command line

Two commands: `list` prints the catalog, and `build` prints the outputs of a
request file with their shared nodes bound once. A run is a function of the
arguments and of what opening a path gives. Either everything is printed, or
there is nothing but an error.
-/

namespace ShaderAlgebra.Command

/-- What opening a path and reading it to the end gives. -/
inductive Source
  | content (bytes : List UInt8)
  | unopened (reason : String)
  | unread (reason : String)

/-- What the arguments ask for. -/
inductive Invocation
  | list
  | build (path : String) (fingerprint : Bool)
  | version
  | help
  | misuse
deriving DecidableEq

structure Outcome where
  exit : Nat
  stdout : String := ""
  stderr : String := ""
deriving DecidableEq

section Arguments

inductive Argument
  /-- One letter of a cluster of flags. -/
  | letter (flag : Char)
  /-- A name after two hyphens, and what follows an equals sign. -/
  | long (name : String) (value : Option String)
  /-- Two hyphens alone, which end the flags. -/
  | escape
  | plain (text : String)
deriving DecidableEq

namespace Argument

/-- The pieces of one word of the command line: a cluster of flags is as many pieces
as it has letters. A hyphen alone is plain text. -/
def ofWord (word : String) : List Argument :=
  match word.toList with
  | ['-', '-'] => [escape]
  | '-' :: '-' :: text =>
    let name := String.ofList (text.takeWhile (· != '='))
    match text.dropWhile (· != '=') with
    | [] => [long name none]
    | _ :: value => [long name (some (String.ofList value))]
  | '-' :: c :: flags => (c :: flags).map letter
  | _ => [plain word]

def isFlag (flag : Char) (name : String) : Argument → Bool
  | letter c => c == flag
  | long given none => given == name
  | _ => false

def isVerbose : Argument → Bool := isFlag 'v' "verbose"

def isHelp : Argument → Bool := isFlag 'h' "help"

def isVersion : Argument → Bool := isFlag 'V' "version"

end Argument

def listArguments : (verbose : Bool) → List Argument → Invocation
  | _, [] => .list
  | verbose, arg :: rest =>
    if arg.isVerbose then
      if verbose then .misuse else listArguments true rest
    else if arg.isHelp then .help
    else if arg = .escape ∧ rest = [] then .list
    else .misuse

structure BuildArguments where
  path : Option String := none
  fingerprint : Bool := false
  verbose : Bool := false

/-- Complete arguments of `build` have a path. -/
def BuildArguments.invocation (given : BuildArguments) : Invocation :=
  match given.path with
  | some path => .build path given.fingerprint
  | none => .misuse

/-- Adds the path, which must not be empty and is given once. -/
def BuildArguments.withPath (given : BuildArguments) (path : String) : Option BuildArguments :=
  if path.isEmpty || given.path.isSome then none else some { given with path := some path }

/-- The arguments of `build`. The path follows its option's name, after an equals sign or
as the next piece. -/
def buildArguments : BuildArguments → List Argument → Invocation
  | given, [] => given.invocation
  | given, .long "in" (some path) :: rest =>
    match given.withPath path with
    | some given => buildArguments given rest
    | none => .misuse
  | given, .long "in" none :: .plain path :: rest =>
    match given.withPath path with
    | some given => buildArguments given rest
    | none => .misuse
  | given, .long "fingerprint" none :: rest =>
    if given.fingerprint then .misuse
    else buildArguments { given with fingerprint := true } rest
  | given, arg :: rest =>
    if arg.isVerbose then
      if given.verbose then .misuse else buildArguments { given with verbose := true } rest
    else if arg.isHelp then .help
    else if arg = .escape ∧ rest = [] then given.invocation
    else .misuse

def helpArguments : List Argument → Invocation
  | [] => .help
  | [arg] =>
    if arg = .plain "list" ∨ arg = .plain "build" ∨ arg = .plain "help" then .help else .misuse
  | _ => .misuse

/-- Arguments up to the name of a command. -/
def commandArguments : (verbose : Bool) → List Argument → Invocation
  | _, [] => .misuse
  | verbose, arg :: rest =>
    if arg = .plain "list" then listArguments false rest
    else if arg = .plain "build" then buildArguments {} rest
    else if arg = .plain "help" then helpArguments rest
    else if arg.isVerbose then
      if verbose then .misuse else commandArguments true rest
    else if arg.isVersion then .version
    else if arg.isHelp then .help
    else .misuse

/-- What the words of a command line ask for. -/
def Invocation.ofArguments (words : List String) : Invocation :=
  commandArguments false (words.flatMap Argument.ofWord)

end Arguments

/-- Text filled up with blanks to a width. -/
def padRight (width : Nat) (s : String) : String :=
  s ++ String.ofList (List.replicate (width - s.length) ' ')

def catalogLine (op : Operator) : String :=
  padRight 26 op.name ++ " inputs=" ++ toString op.arity ++ " outputs=" ++ toString op.outputs

def unlines (lines : List String) : String := String.join (lines.map (· ++ "\n"))

/-- The line of an output, with its fingerprint if asked for. -/
def outputLine (fingerprint : Bool) (i : Nat) (output : Expr) (root : String) : String :=
  "out" ++ toString i ++ ": " ++ output.type.name ++ " = " ++ root ++
    (if fingerprint then " [" ++ output.fingerprint.text ++ "]" else "")

def outputsText (fingerprint : Bool) (outputs : List Expr) : String :=
  let shared := SharedText.render outputs
  let rows := (outputs.zip shared.roots).zipIdx.map fun ((output, root), i) =>
    outputLine fingerprint i output root
  unlines (shared.bindings ++ rows)

def failureMessage : Failure → String
  | .refused e => e.message
  | .violated (.operandTypes op left right) =>
    op.label ++ " on " ++ left.name ++ " and " ++ right.name
  | .violated (.channel type i) => "no channel " ++ toString i ++ " in " ++ type.name

def failed (message : String) : Outcome := { exit := 1, stderr := "Error: " ++ message ++ "\n" }

/-- Builds and prints the request of a file. -/
def runBuild (path : String) (fingerprint : Bool) : Source → Outcome
  | .unopened reason => failed (Error.config (.unopened path reason)).message
  | .unread reason => failed (Error.config (.unreadable (.interrupted reason))).message
  | .content bytes =>
    match Request.parse bytes with
    | .error e => failed e.message
    | .ok request =>
      match request.build.result with
      | .error failure =>
        failed ("build '" ++ request.operator.name ++ "' from '" ++ path ++
          "'\n\nCaused by:\n    " ++ failureMessage failure)
      | .ok outputs => { exit := 0, stdout := outputsText fingerprint outputs }

def Invocation.run (source : String → Source) : Invocation → Outcome
  | list => { exit := 0, stdout := unlines (Operator.all.map catalogLine) }
  | build path fingerprint => runBuild path fingerprint (source path)
  | version => { exit := 0, stdout := "vfx-operators 0.1.0\n" }
  | help => { exit := 0, stdout := "vfx-operators [-v] list | build --in <path> [--fingerprint]\n" }
  | misuse =>
    { exit := 2, stderr := "usage: vfx-operators [-v] list | build --in <path> [--fingerprint]\n" }

def run (source : String → Source) (args : List String) : Outcome :=
  (Invocation.ofArguments args).run source

end ShaderAlgebra.Command
