import DualShell.Text.Utf8
import DualShell.Value.Exception
import DualShell.Value.Json

/-!
# What a run leaves

The output of a run on its two streams, and the failure that ended it, if any. Several parts of one run compose to one
outcome by their position.
-/

namespace DualShell

/-- The output of a run, and its failure. -/
structure RunResult where
  out : String
  err : String
  values : List Value
  exception : Option Exception

namespace RunResult

/-- The result of a run that wrote nothing and did not fail. -/
def empty : RunResult := ⟨"", "", [], none⟩

/-- The result of a failure without output. -/
def ofException (e : Exception) : RunResult := { empty with exception := some e }

/-- The result of a run that wrote bytes and values and had an outcome; bytes are read as text leniently. -/
def ofOutput (out err : Bytes) (values : List Value) (outcome : Outcome) : RunResult where
  out := Utf8.decodeLenient out
  err := Utf8.decodeLenient err
  values := values
  exception :=
    match outcome with
    | .ok () => none
    | .error e => some e

/-- Whether the run succeeded. -/
def ok (r : RunResult) : Bool :=
  r.exception.isNone

/-- The exit status that stands for the result. -/
def code (r : RunResult) : Nat :=
  if r.ok then 0 else 1

end RunResult

/-- The document of a value; a value that has none is shown as text. -/
def Value.toJsonOrText (v : Value) : Json :=
  match v.toJson with
  | .ok j => j
  | .error _ => .string v.repr

/-- The document of a result. -/
def RunResult.toJson (r : RunResult) : Json :=
  .object [
    ("err", .string r.err),
    ("exception",
      match r.exception with
      | none => .null
      | some e => .object [("reason", e.reason.toJsonOrText), ("report", .string e.report)]),
    ("ok", .bool r.ok),
    ("out", .string r.out),
    ("values", .array (r.values.map Value.toJsonOrText))]

/-- The failures of a pipeline that count, in the order of its forms: that the reader of a form before the last was gone
only means that the reader was done. -/
def countedFailures : List Outcome → List Exception
  | [] => []
  | .ok () :: rest => countedFailures rest
  | .error e :: rest => if !rest.isEmpty && e.isReaderGone then countedFailures rest else e :: countedFailures rest

/-- The outcome of a pipeline from those of its forms. -/
def composeOutcomes (outcomes : List Outcome) (place : Place) : Outcome :=
  match countedFailures outcomes with
  | [] => .ok ()
  | [e] => .error e
  | es => .error ((Exception.ofCauses es).passing place)

end DualShell
