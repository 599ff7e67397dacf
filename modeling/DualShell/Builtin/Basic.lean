/-!
# The builtin commands and variables

Which commands and which fixed variables every program can name.
-/

namespace DualShell

/-- The commands that are part of the shell. -/
inductive Builtin
  | all
  | bool
  | break_
  | continue_
  | each
  | echo
  | eq
  | fail
  | fromJson
  | fromLines
  | jobs
  | nop
  | not
  | notEq
  | print
  | put
  | return_
  | slurp
  | toJson
  | toLines
  | wait
  deriving DecidableEq, Repr

namespace Builtin

/-- Every builtin, sorted by name. -/
def every : List Builtin :=
  [.all, .bool, .break_, .continue_, .each, .echo, .eq, .fail, .fromJson, .fromLines, .jobs, .nop, .not, .notEq,
    .print, .put, .return_, .slurp, .toJson, .toLines, .wait]

/-- The name of a builtin. -/
def name : Builtin → String
  | .all => "all"
  | .bool => "bool"
  | .break_ => "break"
  | .continue_ => "continue"
  | .each => "each"
  | .echo => "echo"
  | .eq => "eq"
  | .fail => "fail"
  | .fromJson => "from-json"
  | .fromLines => "from-lines"
  | .jobs => "jobs"
  | .nop => "nop"
  | .not => "not"
  | .notEq => "not-eq"
  | .print => "print"
  | .put => "put"
  | .return_ => "return"
  | .slurp => "slurp"
  | .toJson => "to-json"
  | .toLines => "to-lines"
  | .wait => "wait"

/-- The builtin of a name. -/
def ofName? (s : String) : Option Builtin :=
  every.find? (·.name == s)

end Builtin

/-- The names of the fixed variables. -/
def fixedVariables : List String :=
  ["true", "false", "ok", "pid"]

/-- Whether a name is that of a fixed variable. -/
def isFixedVariable (name : String) : Bool :=
  fixedVariables.contains name

end DualShell
