/-
  FormRules.Main

  The program: reads the context file if one is named, runs the command and prints its
  report.
-/

import FormRules.CommandLine

namespace FormRules.CommandLine

/-- The text of a file, or why it cannot be read. -/
def readContextFile (path : String) : IO (Except String String) := do
  try
    return .ok (← IO.FS.readFile path)
  catch error =>
    return .error (toString error)

end FormRules.CommandLine

open FormRules in
def main (arguments : List String) : IO UInt32 := do
  let called := CommandLine.programName :: arguments
  let report ← CommandLine.invoke CommandLine.readContextFile CommandLine.plainRefusal called
  IO.print report.output
  IO.eprint report.errors
  return report.status.toUInt32
