import DualShell.Code.Basic

/-!
# Values and failures

Strings are the only primitive literal; nothing is converted by itself. Lists and maps hold values of any kind, a map
its pairs in the order in which their keys came. Closures, exceptions and namespaces have an identity of their own,
which is all that is compared of them.

A failure is an exception: a value given to `fail`, a cause the shell found itself, several failures of one pipeline, or
a flow signal on its way to the construct it ends. Its trace lists the places it passed through, the innermost first.
-/

namespace DualShell

/-- The name of a variable's storage. -/
abbrev CellId := Nat

/-- The name of the variables of one activation. -/
abbrev FrameId := Nat

/-- A signal to the construct around it. -/
inductive Flow
  | break_
  | continue_
  | return_
  deriving DecidableEq, Repr

/-- The word that raises a signal. -/
def Flow.name : Flow → String
  | .break_ => "break"
  | .continue_ => "continue"
  | .return_ => "return"

/-- A failure the shell found itself. -/
inductive Cause
  | arityMismatch (what expected : String) (got : Nat)
  | commandNotFound (name : String)
  | externalExit (command : String) (status : Int)
  | noMatch (pattern : String)
  /-- The reader of what is being written is gone. -/
  | readerGone
  | type (text : String)
  | index (text : String)
  | noSuchVariable (name : String)
  | module (text : String)
  | compilation (text : String)
  | io (text : String)
  deriving DecidableEq, Repr

/-- The word for a kind of failure. -/
def Cause.tag : Cause → String
  | .arityMismatch .. => "arity-mismatch"
  | .commandNotFound _ => "command-not-found"
  | .externalExit .. => "external-exit"
  | .noMatch _ => "no-match"
  | .readerGone => "reader-gone"
  | .type _ => "type"
  | .index _ => "index"
  | .noSuchVariable _ => "no-such-variable"
  | .module _ => "module"
  | .compilation _ => "compilation"
  | .io _ => "io"

/-- The wording of a failure. -/
def Cause.message : Cause → String
  | .arityMismatch what expected got => s!"arity mismatch: {what} wants {expected} values, got {got}"
  | .commandNotFound name => s!"command not found: {name}"
  | .externalExit command status => s!"{command} exited with status {status}"
  | .noMatch pattern => s!"wildcard has no match: {pattern}"
  | .readerGone => "reader gone"
  | .type text => text
  | .index text => text
  | .noSuchVariable name => s!"no such variable: {name}"
  | .module text => s!"module: {text}"
  | .compilation text => s!"compilation error: {text}"
  | .io text => s!"i/o error: {text}"

/-- A lambda with the cells it took along. A function made by a definition catches `return`. The home is the frame of
the activation that made it. -/
structure Closure where
  identity : Nat
  op : Code.Lambda
  captures : List (String × CellId)
  catchesReturn : Bool
  home : FrameId

/-- The variables a module left behind. -/
structure Namespace where
  identity : Nat
  name : String
  members : List (String × CellId)
  deriving DecidableEq, Repr

/-- The cell of a member. -/
def Namespace.get? (n : Namespace) (name : String) : Option CellId :=
  (n.members.find? (·.1 == name)).map (·.2)

mutual

/-- A value. -/
inductive Value
  | string (s : String)
  | bool (b : Bool)
  | list (items : List Value)
  | map (pairs : List (Value × Value))
  | closure (c : Closure)
  /-- The exception of no failure. -/
  | ok
  /-- A caught exception; identity zero stands for one that no variable has held yet. -/
  | exception (identity : Nat) (e : Exception)
  | ns (n : Namespace)

/-- A failure and its trace. -/
structure Exception where
  kind : ExceptionKind
  trace : List Place

/-- What a failure is. -/
inductive ExceptionKind
  /-- The value given to `fail`. -/
  | fail (reason : Value)
  | cause (c : Cause)
  /-- The failures of several parts, in the order of the parts. -/
  | composite (causes : List Exception)
  | flow (f : Flow)

end

instance : Inhabited Value := ⟨.ok⟩

instance : Inhabited Exception := ⟨⟨.fail .ok, []⟩⟩

/-- What ends an evaluation: success, or a failure. -/
abbrev Outcome := Except Exception Unit

namespace Value

/-- The empty string. -/
def empty : Value := .string ""

/-- The kind of a value, as type errors name it. -/
def kind : Value → String
  | .string _ => "string"
  | .bool _ => "bool"
  | .list _ => "list"
  | .map _ => "map"
  | .closure _ => "fn"
  | .ok => "exception"
  | .exception _ _ => "exception"
  | .ns _ => "ns"

/-- False and every real exception are false; all else is true. -/
def truthy : Value → Bool
  | .bool b => b
  | .exception _ _ => false
  | _ => true

/-- The text of a string. -/
def string? : Value → Option String
  | .string s => some s
  | _ => none

/-- The text of a string, or a type error that names its role. -/
def expectString (v : Value) (what : String) : Except Cause String :=
  match v with
  | .string s => .ok s
  | v => .error (.type s!"{what} must be a string, got {v.kind}")

/-- What a loop visits: the items of a list, the keys of a map, the characters of a string. -/
def iterate : Value → Except Cause (List Value)
  | .list items => .ok items
  | .map pairs => .ok (pairs.map (·.1))
  | .string s => .ok (s.toList.map fun c => .string c.toString)
  | v => .error (.type s!"cannot iterate {v.kind}")

end Value

/-- The value of a fixed variable. The process number is not a fact about programs; it is given as zero. -/
def fixedValue? (name : String) : Option Value :=
  if name == "true" then some (.bool true)
  else if name == "false" then some (.bool false)
  else if name == "ok" then some .ok
  else if name == "pid" then some (.string "0")
  else none

end DualShell
