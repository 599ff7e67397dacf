import DualShell.Text.Quoted
import DualShell.Value.Basic

/-!
# Values and failures as text

Every value has a form in which it is shown, close to the way it is typed; a string is quoted there if it needs to be.
Where plain text is wanted a string stands for itself. The message of a failure shows the value given to `fail` that
way.
-/

namespace DualShell

mutual

/-- The form in which a value is shown. -/
def Value.repr : Value → String
  | .string s => Quoted.word s
  | .bool true => "$true"
  | .bool false => "$false"
  | .list items => "[" ++ " ".intercalate (Value.reprItems items) ++ "]"
  | .map pairs => if pairs.isEmpty then "[&]" else "[" ++ " ".intercalate (Value.reprPairs pairs) ++ "]"
  | .closure _ => "<closure>"
  | .ok => "$ok"
  | .exception _ e => "[^exception &reason=" ++ Quoted.word e.message ++ "]"
  | .ns n => "<ns " ++ n.name ++ ">"

/-- The items of a list as shown. -/
def Value.reprItems : List Value → List String
  | [] => []
  | v :: vs => v.repr :: Value.reprItems vs

/-- The pairs of a map as shown. -/
def Value.reprPairs : List (Value × Value) → List String
  | [] => []
  | (k, v) :: ps => ("&" ++ k.repr ++ "=" ++ v.repr) :: Value.reprPairs ps

/-- The message of a failure. -/
def Exception.message : Exception → String
  | ⟨kind, _⟩ => kind.message

/-- The message of a kind of failure. -/
def ExceptionKind.message : ExceptionKind → String
  | .fail (.string s) => s
  | .fail reason => reason.repr
  | .cause c => c.message
  | .composite causes => toString causes.length ++ " exceptions:" ++ Exception.messages causes
  | .flow f => f.name ++ " outside of its construct"

/-- The messages of several failures, each in brackets after a blank. -/
def Exception.messages : List Exception → String
  | [] => ""
  | e :: es => " [" ++ e.message ++ "]" ++ Exception.messages es

end

/-- A value as plain text. -/
def Value.display : Value → String
  | .string s => s
  | v => v.repr

end DualShell
