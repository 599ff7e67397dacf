import DualShell.Compile.Fault
import DualShell.Job.RunResult

/-!
# What is shown of a run

Bytes are shown as they are. Values come after them, one on a line, with a mark that bytes do not have by accident.
-/

namespace DualShell.Report

/-- The mark before every value. -/
def valueMark : String := "▶ "

/-- Values, one on a line. -/
def values (vs : List Value) : String :=
  String.join (vs.map fun v => valueMark ++ v.repr ++ "\n")

/-- The output of a run: bytes, then values, which start on a line of their own. -/
def output (r : RunResult) : String :=
  let gap := if !r.out.isEmpty && !r.out.endsWith "\n" && !r.values.isEmpty then "\n" else ""
  r.out ++ gap ++ values r.values

/-- The report of a failure, ended by a newline. -/
def failure (e : Exception) : String :=
  if e.report.endsWith "\n" then e.report else e.report ++ "\n"

/-- The report of a program that does not resolve. -/
def compileError (e : CompileError) : String :=
  s!"compilation error: {e.message}\n"

end DualShell.Report
