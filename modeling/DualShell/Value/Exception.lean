import DualShell.Value.Render

/-!
# Raising and reading failures

How failures are made, gain a trace, are taken apart by programs and are reported to people. A flow signal has no trace,
and a place is not recorded twice in a row.
-/

namespace DualShell

/-- The word for a kind of failure. -/
def ExceptionKind.tag : ExceptionKind → String
  | .fail _ => "fail"
  | .cause c => c.tag
  | .composite _ => "composite"
  | .flow _ => "flow"

namespace Exception

/-- A failure the shell found itself. -/
def ofCause (c : Cause) : Exception := ⟨.cause c, []⟩

/-- The failure of a value given to `fail`. -/
def ofReason (v : Value) : Exception := ⟨.fail v, []⟩

/-- A flow signal. -/
def ofFlow (f : Flow) : Exception := ⟨.flow f, []⟩

/-- Several failures as one; callers give at least two. -/
def ofCauses (es : List Exception) : Exception := ⟨.composite es, []⟩

/-- The signal of a flow exception. -/
def flow? (e : Exception) : Option Flow :=
  match e.kind with
  | .flow f => some f
  | _ => none

/-- Whether this is a flow signal. -/
def isFlow (e : Exception) : Bool :=
  e.flow?.isSome

/-- Whether this says that the reader of what was written is gone. -/
def isReaderGone (e : Exception) : Bool :=
  match e.kind with
  | .cause .readerGone => true
  | _ => false

/-- The parts of a composite failure. -/
def causes (e : Exception) : List Exception :=
  match e.kind with
  | .composite es => es
  | _ => []

/-- Record that a failure passed through a place. -/
def passing (e : Exception) (place : Place) : Exception :=
  if e.isFlow || e.trace.getLast? == some place then e
  else { e with trace := e.trace ++ [place] }

/-- What a program sees as the reason: the value given to `fail`, or the message. -/
def reason (e : Exception) : Value :=
  match e.kind with
  | .fail v => v
  | _ => .string e.message

/-- The exit status of an external program that failed. -/
def status? (e : Exception) : Option Int :=
  match e.kind with
  | .cause (.externalExit _ status) => some status
  | _ => none

/-- A field of an exception, as a program reads it. -/
def field? (e : Exception) (key : String) : Option Value :=
  if key == "reason" then some e.reason
  else if key == "kind" then some (.string e.kind.tag)
  else if key == "causes" then some (.list (e.causes.map (.exception 0)))
  else if key == "status" then e.status?.map fun n => .string (toString n)
  else if key == "traceback" then some (.list (e.trace.map fun p => .string p.text))
  else none

end Exception

/-- The lines of a text: the pieces ended by a newline and a last piece that is not empty, each without a carriage
return before the newline. -/
def textLines (s : String) : List String :=
  let pieces := (s.splitOn "\n")
  let full := pieces.dropLast.map fun p =>
    String.ofList (if p.toList.getLast? == some '\r' then p.toList.dropLast else p.toList)
  match pieces.getLast? with
  | some "" => full
  | some last => full ++ [last]
  | none => full

/-- A text without leading white space. -/
def withoutIndent (s : String) : String :=
  String.ofList (s.toList.dropWhile CharClass.isBlank)

/-- The line of a part in the report of the whole: the head of part `i` shows its number, other lines are indented under
it. -/
def reportPart (i : Nat) (line : String) : String :=
  (if line.startsWith "Exception" then s!"  [{i}] " else "    ") ++ withoutIndent line ++ "\n"

mutual

/-- The report of a failure: its message, its trace, and the reports of its parts. -/
def Exception.report : Exception → String
  | ⟨kind, trace⟩ =>
    "Exception: " ++ kind.message ++ "\n" ++ String.join (trace.map fun p => "  at " ++ p.text ++ "\n") ++ kind.reportParts

/-- The reports of the parts of a composite failure. -/
def ExceptionKind.reportParts : ExceptionKind → String
  | .composite es => Exception.reports 0 es
  | _ => ""

/-- The reports of parts numbered from `i` on. -/
def Exception.reports (i : Nat) : List Exception → String
  | [] => ""
  | e :: es => String.join ((textLines e.report).map (reportPart i)) ++ Exception.reports (i + 1) es

end

/-- What a loop does after one run of its body. -/
inductive LoopStep
  | next
  | stop
  deriving DecidableEq, Repr

/-- Take `break` and `continue` as news for the loop; any other failure stays one. -/
def loopStep : Outcome → Except Exception LoopStep
  | .ok () => .ok .next
  | .error e =>
    match e.flow? with
    | some .break_ => .ok .stop
    | some .continue_ => .ok .next
    | _ => .error e

end DualShell
