/-
  FormRules.Proofs.Reporting

  What the program prints, for all arguments and all states of the files, line by line.

  Four forms of the arguments are commands. A command is answered (`Answers`) by the engine,
  if the context that it names can be read, and all other arguments are refused with one
  message (`Refuses`). So the report of a run is given without a look at how the arguments are
  matched, and what the commands have in common for one expression is what the operations of
  the engine have in common.

  The reasons why a file cannot be read, or is no context, are not worded by the program. Both
  are taken from what is outside of it (`World`).

  Main statement: `report_spec`.
-/

import FormRules.Proofs.Agreement
import FormRules.Proofs.Printing
import FormRules.CommandLine

namespace FormRules

namespace CommandLine

open Engine

/-- What is outside of the program: each path leads to a text or to the reason why there is
    none, and a text that is no context is refused in some words. -/
structure World where
  read : String → Except String String
  refusal : String → String

/-- The report of a run. -/
def report (world : World) (arguments : List String) : Report :=
  Id.run (@invoke Id _ world.read world.refusal arguments)

theorem report_eq (world : World) (arguments : List String) :
    report world arguments =
      run arguments.tail ((contextFile? arguments.tail).map world.read)
        (arguments.headD programName) world.refusal := by
  unfold report invoke
  cases contextFile? arguments.tail <;> rfl

/-! ## Answers -/

/-- The context that is supplied behind an expression: the empty one by no argument, or by a
    path the one that its text describes. -/
inductive Supplies (world : World) : List String → Context → Prop
  | nothing : Supplies world [] .empty
  | file {path text : String} {context : Context} (hfile : world.read path = .ok text)
      (hread : Context.read? text = some context) : Supplies world [path] context

/-- The answer of the engine to a command, and whether it is a good one. -/
inductive Answers (world : World) : List String → Json → Bool → Prop
  | evaluate {program source : String} {rest : List String} {context : Context}
      (h : Supplies world rest context) :
      Answers world (program :: "eval" :: source :: rest)
        (Engine.default.evaluate source context).answer.toJson
        (Engine.default.evaluate source context).answer.success
  | validate {program source : String} :
      Answers world [program, "validate", source]
        (Engine.default.validate source).answer.toJson (Engine.default.validate source).answer.valid
  | dependencies {program source : String} :
      Answers world [program, "deps", source]
        (.array ((Engine.default.dependencies source).answer.map .string)) true

/-! ## Refusals -/

/-- The forms of commands, behind the name of the program. -/
inductive IsCommand : List String → Prop
  | evaluate {program source : String} {rest : List String} (h : rest.length ≤ 1) :
      IsCommand (program :: "eval" :: source :: rest)
  | validate {program source : String} : IsCommand [program, "validate", source]
  | dependencies {program source : String} : IsCommand [program, "deps", source]

/-- What the program says about its use. -/
def usageLines (program : String) : List String :=
  ["Evaluate, validate or inspect form rule expressions.",
    "",
    "Usage:",
    "  " ++ program ++ " eval <expression> [path/to/context.json]",
    "  " ++ program ++ " validate <expression>",
    "  " ++ program ++ " deps <expression>"]

/-- What is printed for arguments without an answer: they are no command, or the context that
    they name cannot be read. -/
inductive Refuses (world : World) : List String → List String → Prop
  | usage {arguments : List String} (h : ¬IsCommand arguments) :
      Refuses world arguments (usageLines (arguments.headD "formexpr"))
  | unreadable {program source path reason : String} (hfile : world.read path = .error reason) :
      Refuses world [program, "eval", source, path] ["I/O error: " ++ reason]
  | invalid {program source path text : String} (hfile : world.read path = .ok text)
      (hread : Context.read? text = none) :
      Refuses world [program, "eval", source, path]
        ["Invalid context JSON: " ++ world.refusal text]

/-- A command that is matched has one of the four forms. -/
theorem isCommand_of_command? {arguments : List String} {command : Command}
    (h : command? arguments.tail = some command) : IsCommand arguments := by
  cases arguments with
  | nil => cases h
  | cons program arguments =>
    rw [List.tail_cons] at h
    unfold command? at h
    split at h
    · exact .evaluate (Nat.zero_le 1)
    · exact .evaluate (Nat.le_refl 1)
    · exact .validate
    · exact .dependencies
    · cases h

section World

variable {world : World}

/-- An evaluation goes on with the context of its file. -/
theorem report_evaluate_file (program source path : String) :
    report world [program, "eval", source, path] =
      match contextOf world.refusal (some (world.read path)) with
      | .error failure => .ofFailure failure
      | .ok context =>
        .ofResult (Engine.default.evaluate source context).answer.toJson
          (Engine.default.evaluate source context).answer.success := by
  rw [report_eq]
  rfl

theorem ofResult_eq (data : Json) (good : Bool) :
    Report.ofResult data good = ⟨if good then 0 else 1, Json.printed data.lines, ""⟩ := by
  rw [Report.ofResult, data.pretty_append_eq]

/-- An answer is printed line by line, and the status says whether it is a good one. -/
theorem report_of_answers {arguments : List String} {result : Json} {good : Bool}
    (h : Answers world arguments result good) :
    report world arguments = ⟨if good then 0 else 1, Json.printed result.lines, ""⟩ := by
  rw [← ofResult_eq]
  -- only an evaluation with a file depends on what is read
  cases h with
  | evaluate hsupplies =>
    cases hsupplies with
    | nothing =>
      rw [report_eq]
      rfl
    | file hfile hread =>
      rw [report_evaluate_file, hfile, contextOf, hread]
  | validate =>
    rw [report_eq]
    rfl
  | dependencies =>
    rw [report_eq]
    rfl

/-- The message of a failure is printed with its end. -/
theorem ofFailure_eq {failure : Failure} {lines : List String} (hne : lines ≠ [])
    (h : failure.message = "\n".intercalate lines) :
    Report.ofFailure failure = ⟨1, "", Json.printed lines⟩ := by
  rw [Report.ofFailure, h, Json.intercalate_append_eq_printed hne]

theorem message_usage (program : String) :
    (Failure.usage program).message = "\n".intercalate (usageLines program) := by
  -- the ends of the lines are taken out of the fixed texts
  have hsummary : "Evaluate, validate or inspect form rule expressions.\n\n" =
    "Evaluate, validate or inspect form rule expressions." ++ ("\n" ++ ("" ++ "\n")) := by
      decide +kernel
  have husage : "Usage:\n" = "Usage:" ++ "\n" := by decide +kernel
  have hevaluate : " eval <expression> [path/to/context.json]\n" =
    " eval <expression> [path/to/context.json]" ++ "\n" := by decide +kernel
  have hvalidate : " validate <expression>\n" = " validate <expression>" ++ "\n" := by
    decide +kernel
  unfold Failure.message
  dsimp only
  rw [hsummary, husage, hevaluate, hvalidate]
  simp only [usageLines, String.intercalate_cons_cons, String.intercalate_singleton,
    String.append_assoc]

/-- A refusal is printed to the errors, and nothing else is. -/
theorem report_of_refuses {arguments lines : List String} (h : Refuses world arguments lines) :
    report world arguments = ⟨1, "", Json.printed lines⟩ := by
  cases h with
  | usage hcommand =>
    have hnone : command? arguments.tail = none := by
      cases hfound : command? arguments.tail with
      | none => rfl
      | some command => exact absurd (isCommand_of_command? hfound) hcommand
    rw [report_eq, run, hnone]
    exact ofFailure_eq (List.cons_ne_nil _ _) (message_usage _)
  | unreadable hfile =>
    rw [report_evaluate_file, hfile]
    exact ofFailure_eq (List.cons_ne_nil _ _) String.intercalate_singleton.symm
  | invalid hfile hread =>
    rw [report_evaluate_file, hfile, contextOf, hread]
    exact ofFailure_eq (List.cons_ne_nil _ _) String.intercalate_singleton.symm

/-- Arguments are answered or refused. -/
theorem answers_or_refuses (world : World) (arguments : List String) :
    (∃ result good, Answers world arguments result good) ∨
      ∃ lines, Refuses world arguments lines := by
  by_cases hcommand : IsCommand arguments
  · cases hcommand with
    | validate => exact Or.inl ⟨_, _, .validate⟩
    | dependencies => exact Or.inl ⟨_, _, .dependencies⟩
    | @evaluate program source rest hrest =>
      match rest, hrest with
      | [], _ => exact Or.inl ⟨_, _, .evaluate .nothing⟩
      | [path], _ =>
        -- the file is read first, and its text after that
        cases hfile : world.read path with
        | error reason => exact Or.inr ⟨_, .unreadable hfile⟩
        | ok text =>
          cases hread : Context.read? text with
          | none => exact Or.inr ⟨_, .invalid hfile hread⟩
          | some context => exact Or.inl ⟨_, _, .evaluate (.file hfile hread)⟩
  · exact Or.inr ⟨_, .usage hcommand⟩

/-- Arguments of the form of a command have it whatever their expression is. -/
theorem isCommand_of_set {arguments : List String} {source : String}
    (h : IsCommand (arguments.set 2 source)) : IsCommand arguments := by
  match arguments, h with
  | [program, command, _], h =>
    cases h with
    | evaluate hrest => exact .evaluate hrest
    | validate => exact .validate
    | dependencies => exact .dependencies
  | program :: command :: _ :: first :: rest, h =>
    cases h with
    | evaluate hrest => exact .evaluate hrest
  | [], h | [_], h | [_, _], h => cases h

/-- A refusal is not up to the expression. -/
theorem Refuses.set {arguments lines : List String} (h : Refuses world arguments lines)
    (source : String) : Refuses world (arguments.set 2 source) lines := by
  cases h with
  | usage hcommand =>
    have hprogram : (arguments.set 2 source).headD "formexpr" = arguments.headD "formexpr" := by
      cases arguments <;> rfl
    rw [← hprogram]
    exact .usage fun h => hcommand (isCommand_of_set h)
  | unreadable hfile => exact .unreadable hfile
  | invalid hfile hread => exact .invalid hfile hread

end World

/-! ## One expression -/

/-- What a source is read as by the engine of the program. -/
def compiled (source : String) : Compiled := Expression.parse ({} : Settings).maxDepth source

/-- The answers of the engine to the commands for one source are those of what it is read
    as. -/
theorem default_answers (source : String) :
    (Engine.default.validate source).answer = verdictOf (compiled source) ∧
      (Engine.default.dependencies source).answer = dependenciesOf (compiled source) ∧
      ∀ context, (Engine.default.evaluate source context).answer =
        outcomeOf ((compiled source).bind (·.evaluate context)) :=
  ⟨validate_after {} [] source, dependencies_after {} [] source, evaluate_after {} [] source⟩

/-- What is printed for the verdict on a faulty expression. -/
def rejectedLines (text : String) : List String :=
  ["\x7b",
    "  \"valid\": false,",
    "  \"error\": " ++ Json.literal text,
    "\x7d"]

theorem lines_rejected (text : String) :
    (Verdict.rejected text).toJson.lines = rejectedLines text := by
  have hvalid : "  " ++ (Json.literal "valid" ++ ": " ++ "false" ++ ",") =
    "  \"valid\": false," := by decide +kernel
  have herror : "  \"error\": " = "  " ++ (Json.literal "error" ++ ": ") := by decide +kernel
  rw [rejectedLines, ← hvalid, herror, String.append_assoc]
  rfl

/-- What is printed for an evaluation that fails. -/
def failedLines (text : String) : List String :=
  ["\x7b",
    "  \"success\": false,",
    "  \"value\": false,",
    "  \"error\": " ++ Json.literal text,
    "\x7d"]

theorem lines_ofError (text : String) :
    (Outcome.ofError text).toJson.lines = failedLines text := by
  have hsuccess : "  " ++ (Json.literal "success" ++ ": " ++ "false" ++ ",") =
    "  \"success\": false," := by decide +kernel
  have hvalue : "  " ++ (Json.literal "value" ++ ": " ++ "false" ++ ",") =
    "  \"value\": false," := by decide +kernel
  have herror : "  \"error\": " = "  " ++ (Json.literal "error" ++ ": ") := by decide +kernel
  rw [failedLines, ← hsuccess, ← hvalue, herror, String.append_assoc]
  rfl

section Source

variable {source : String} (world : World) (program : String)

/-- The validation of a source that is read as a tree reports zero. -/
theorem report_validate_of_tree {tree : Expression} (h : compiled source = .ok tree) :
    (report world [program, "validate", source]).status = 0 := by
  obtain ⟨hvalidate, -⟩ := default_answers source
  rw [report_of_answers .validate, hvalidate, h]
  rfl

section Fault

variable {fault : Fault} (h : compiled source = .error fault)
include h

/-- The validation of a source with a fault reports one, and the wording of the fault. -/
theorem report_validate_of_fault :
    report world [program, "validate", source] =
      ⟨1, Json.printed (rejectedLines fault.message), ""⟩ := by
  obtain ⟨hvalidate, -⟩ := default_answers source
  rw [report_of_answers .validate, hvalidate, h, ← lines_rejected]
  rfl

/-- So does its evaluation, in every context. -/
theorem report_evaluate_of_fault {rest : List String} {context : Context}
    (hsupplies : Supplies world rest context) :
    report world (program :: "eval" :: source :: rest) =
      ⟨1, Json.printed (failedLines fault.message), ""⟩ := by
  obtain ⟨-, -, hevaluate⟩ := default_answers source
  rw [report_of_answers (.evaluate hsupplies), hevaluate, h, ← lines_ofError]
  rfl

/-- Its dependencies are an empty list. -/
theorem report_dependencies_of_fault :
    report world [program, "deps", source] = ⟨0, "[]\n", ""⟩ := by
  obtain ⟨-, hdependencies, -⟩ := default_answers source
  rw [report_of_answers .dependencies, hdependencies, h]
  rfl

end Fault

end Source

/-- The program reports what its engine answers.

      * What a command is answered is printed line by line on the output, and nothing else is
        printed. The status is zero exactly if the answer is a good one: a success, a verdict of
        validity, or any list of dependencies.
      * Arguments without an answer are refused. The message is printed on the errors, nothing
        is printed on the output, and the status is one, whatever the expression is.
      * If the validation of an expression reports one, then its evaluation does so in every
        context, with the same error, and its dependencies are reported as an empty list.
      * If its evaluation reports zero in some context, so does its validation. -/
theorem report_spec :
    (∀ world arguments result good, Answers world arguments result good →
      report world arguments = ⟨if good then 0 else 1, Json.printed result.lines, ""⟩) ∧
    (∀ world arguments, (∀ result good, ¬Answers world arguments result good) →
      ∃ lines, Refuses world arguments lines ∧
        report world arguments = ⟨1, "", Json.printed lines⟩ ∧
        ∀ source, report world (arguments.set 2 source) = report world arguments) ∧
    (∀ source world program, (report world [program, "validate", source]).status = 1 →
      ∃ text, report world [program, "validate", source] =
          ⟨1, Json.printed (rejectedLines text), ""⟩ ∧
        (∀ world' program' rest context, Supplies world' rest context →
          report world' (program' :: "eval" :: source :: rest) =
            ⟨1, Json.printed (failedLines text), ""⟩) ∧
        ∀ world' program', report world' [program', "deps", source] = ⟨0, "[]\n", ""⟩) ∧
    ∀ source world program rest context, Supplies world rest context →
      (report world (program :: "eval" :: source :: rest)).status = 0 →
      ∀ world' program', (report world' [program', "validate", source]).status = 0 := by
  refine ⟨fun world arguments result good => report_of_answers, ?_, ?_, ?_⟩
  · intro world arguments hnone
    rcases answers_or_refuses world arguments with ⟨result, good, hanswers⟩ | ⟨lines, hrefuses⟩
    · exact absurd hanswers (hnone result good)
    · refine ⟨lines, hrefuses, report_of_refuses hrefuses, ?_⟩
      intro source
      rw [report_of_refuses hrefuses, report_of_refuses (hrefuses.set source)]
  · -- only a source with a fault is not valid, and its fault is what all commands meet
    intro source world program hstatus
    cases hcompiled : compiled source with
    | ok tree =>
      rw [report_validate_of_tree world program hcompiled] at hstatus
      cases hstatus
    | error fault =>
      refine ⟨fault.message, ?_, fun world' program' rest context => ?_, fun world' program' => ?_⟩
      · exact report_validate_of_fault world program hcompiled
      · exact report_evaluate_of_fault world' program' hcompiled
      · exact report_dependencies_of_fault world' program' hcompiled
  · intro source world program rest context hsupplies hstatus world' program'
    cases hcompiled : compiled source with
    | ok tree => exact report_validate_of_tree world' program' hcompiled
    | error fault =>
      rw [report_evaluate_of_fault world program hcompiled hsupplies] at hstatus
      cases hstatus

/-- A value that is nested and has characters to escape, a call without its end, which is not
    valid, fails and has no dependencies, and the refusals: of a file that is not there, of a
    text that is no context, and of arguments that are no command. -/
theorem report_nested_value_unclosed_call :
    let text := "\x7b\"ctx\": \x7b\"a\": [1.0, \x7b\"b\": \"x\\n\\u001f\"\x7d, []]\x7d\x7d"
    let world : World :=
      ⟨fun path =>
        if path = "context.json" then .ok text
        else if path = "notes.txt" then .ok "notes"
        else .error "missing",
        fun _ => "expected value"⟩
    report world ["formexpr", "eval", "ctx.a", "context.json"] =
      ⟨0, "\x7b\n  \"success\": true,\n  \"value\": [\n    1.0,\n    \x7b\n" ++
        "      \"b\": \"x\\n\\u001f\"\n    \x7d,\n    []\n  ]\n\x7d\n", ""⟩ ∧
    report world ["formexpr", "validate", "has("] =
      ⟨1, "\x7b\n  \"valid\": false,\n" ++
        "  \"error\": \"Syntax error at position 4: Unexpected end of expression\"\n\x7d\n", ""⟩ ∧
    (∃ text, report world ["formexpr", "eval", "has("] =
        ⟨1, Json.printed (failedLines text), ""⟩ ∧
      report world ["formexpr", "deps", "has("] = ⟨0, "[]\n", ""⟩) ∧
    report world ["formexpr", "deps", "ctx.b&&ctx.a"] =
      ⟨0, "[\n  \"ctx.a\",\n  \"ctx.b\"\n]\n", ""⟩ ∧
    report world ["formexpr", "eval", "has(", "context"] = ⟨1, "", "I/O error: missing\n"⟩ ∧
    report world ["formexpr", "eval", "has(", "notes.txt"] =
      ⟨1, "", "Invalid context JSON: expected value\n"⟩ ∧
    report world [] =
      ⟨1, "", "Evaluate, validate or inspect form rule expressions.\n\nUsage:\n" ++
        "  formexpr eval <expression> [path/to/context.json]\n" ++
        "  formexpr validate <expression>\n  formexpr deps <expression>\n"⟩ := by
  intro text world
  obtain ⟨hanswers, -, hfault, -⟩ := report_spec
  have hread : Context.read? text = some ((Context.read? text).getD .empty) := by
    decide +kernel
  have hfile := @Supplies.file world "context.json" _ _ rfl hread
  have hvalue := hanswers world _ _ _ (@Answers.evaluate world "formexpr" "ctx.a" _ _ hfile)
  have hvalidate := hanswers world _ _ _ (@Answers.validate world "formexpr" "has(")
  have hdependencies := hanswers world _ _ _ (@Answers.dependencies world "formexpr" "ctx.b&&ctx.a")
  have hstatus : (report world ["formexpr", "validate", "has("]).status = 1 := by
    rw [hvalidate]
    with_unfolding_all rfl
  obtain ⟨message, -, hevaluate, hnone⟩ := hfault "has(" world "formexpr" hstatus
  have hmissing := @Refuses.unreadable world "formexpr" "has(" "context" "missing" rfl
  have hnotes :=
    @Refuses.invalid world "formexpr" "has(" "notes.txt" "notes" rfl (by decide +kernel)
  have hnothing := @Refuses.usage world [] nofun
  refine ⟨hvalue.trans ?_, hvalidate.trans ?_, ⟨message, ?_⟩, hdependencies.trans ?_, ?_, ?_, ?_⟩
  · decide +kernel
  · decide +kernel
  · exact ⟨hevaluate world "formexpr" [] .empty .nothing, hnone world "formexpr"⟩
  · decide +kernel
  · exact (report_of_refuses hmissing).trans (by decide +kernel)
  · exact (report_of_refuses hnotes).trans (by decide +kernel)
  · exact (report_of_refuses hnothing).trans (by decide +kernel)

end CommandLine

end FormRules
