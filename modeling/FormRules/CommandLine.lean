/-
  FormRules.CommandLine

  The commands of the program and what they print. Results go to the standard output as
  indented JSON; the reasons for not running a command go to the standard error output.
-/

import FormRules.Engine.Basic
import FormRules.Json.Printer

namespace FormRules.CommandLine

/-! ## Commands -/

/-- A command of the program. -/
inductive Command where
  | evaluate (source : String) (file : Option String)
  | validate (source : String)
  | dependencies (source : String)
deriving DecidableEq

/-- The command given by the arguments of the program. -/
def command? : List String → Option Command
  | ["eval", source] => some (.evaluate source none)
  | ["eval", source, file] => some (.evaluate source (some file))
  | ["validate", source] => some (.validate source)
  | ["deps", source] => some (.dependencies source)
  | _ => none

/-- The context file that the arguments name. -/
def contextFile? (arguments : List String) : Option String :=
  match command? arguments with
  | some (.evaluate _ file) => file
  | _ => none

/-! ## Failures -/

/-- Why a command is not run. What cannot be read is not read for a reason, which is worded by
    what reads it: the file system, or the reader of JSON. -/
inductive Failure where
  | usage (program : String)
  | unreadableFile (reason : String)
  | invalidContext (reason : String)
deriving DecidableEq

/-- The name of the program, unless it is called by another one. -/
def programName : String := "formexpr"

/-- What is printed for a failure. -/
def Failure.message : Failure → String
  | .usage program =>
    "Evaluate, validate or inspect form rule expressions.\n\n" ++
    "Usage:\n" ++
    "  " ++ program ++ " eval <expression> [path/to/context.json]\n" ++
    "  " ++ program ++ " validate <expression>\n" ++
    "  " ++ program ++ " deps <expression>"
  | .unreadableFile reason => "I/O error: " ++ reason
  | .invalidContext reason => "Invalid context JSON: " ++ reason

/-! ## Runs -/

/-- What a run prints, and its exit status. -/
structure Report where
  status : Nat
  output : String
  errors : String
deriving DecidableEq

/-- The report of a result. -/
def Report.ofResult (data : Json) (success : Bool) : Report :=
  ⟨if success then 0 else 1, data.pretty ++ "\n", ""⟩

/-- The report of a failure. -/
def Report.ofFailure (failure : Failure) : Report := ⟨1, "", failure.message ++ "\n"⟩

/-- A wording for a text that is not read as a context, short of where the fault is in it. -/
def plainRefusal (text : String) : String :=
  if (Document.read? text).isSome then "the document does not describe a context"
  else "the text is not a document"

/-- The context to evaluate in: the empty one if no file is named, and otherwise the one
    that the text of the file describes. The text may be missing for a reason, and it may be
    refused in the words of its reader. -/
def contextOf (refusal : String → String) :
    Option (Except String String) → Except Failure Context
  | none => .ok .empty
  | some (.error reason) => .error (.unreadableFile reason)
  | some (.ok text) =>
    match Context.read? text with
    | some context => .ok context
    | none => .error (.invalidContext (refusal text))

/-- Runs the command given by the arguments. The second argument is the text of the named
    context file, or why it cannot be read. The name of the program is shown in its usage, and
    a text that is no context is reported in the words of its reader. -/
def run (arguments : List String) (file : Option (Except String String))
    (program : String := programName) (refusal : String → String := plainRefusal) : Report :=
  match command? arguments with
  | none => .ofFailure (.usage program)
  | some (.evaluate source _) =>
    match contextOf refusal file with
    | .error failure => .ofFailure failure
    | .ok context =>
      let outcome := (Engine.default.evaluate source context).answer
      .ofResult outcome.toJson outcome.success
  | some (.validate source) =>
    let verdict := (Engine.default.validate source).answer
    .ofResult verdict.toJson verdict.valid
  | some (.dependencies source) =>
    let paths := (Engine.default.dependencies source).answer
    .ofResult (.array (paths.map .string)) true

/-- Runs the program with all its arguments, the first of which is the name that it is called
    by. No file is read unless a command names it. -/
def invoke {m : Type → Type} [Monad m] (read : String → m (Except String String))
    (refusal : String → String) (arguments : List String) : m Report := do
  let file ← (contextFile? arguments.tail).mapM read
  return run arguments.tail file (arguments.headD programName) refusal

end FormRules.CommandLine
