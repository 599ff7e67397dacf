import DualShell.Decimal.Shortest
import DualShell.Named

/-!
# JSON documents

The tree of a document and its compact text. An object keeps its members in the order they were written, repeated names
included; `canonical` gives the document as a reader of plain data sees it, with sorted names and the last of repeated
members.
-/

namespace DualShell

/-- A JSON number: an integer of at most 64 bits, or a binary floating-point number by its bit pattern. -/
inductive JsonNumber
  | integer (i : Int)
  | binary (bits : UInt64)
  deriving DecidableEq, Repr

/-- The text of a number. -/
def JsonNumber.render : JsonNumber → String
  | .integer i => toString i
  | .binary bits => Decimal.render bits

/-- A JSON document. -/
inductive Json
  | null
  | bool (b : Bool)
  | number (n : JsonNumber)
  | string (s : String)
  | array (items : List Json)
  | object (members : List (String × Json))
  deriving Repr, Inhabited

namespace Json

mutual

/-- The document as plain data: names sorted and unique at every depth. -/
def canonical : Json → Json
  | .array items => .array (canonicalItems items)
  | .object members => .object (Named.ofList (canonicalMembers members))
  | .null => .null
  | .bool b => .bool b
  | .number n => .number n
  | .string s => .string s

/-- Every item as plain data. -/
def canonicalItems : List Json → List Json
  | [] => []
  | j :: js => canonical j :: canonicalItems js

/-- Every member's value as plain data. -/
def canonicalMembers : List (String × Json) → List (String × Json)
  | [] => []
  | (n, j) :: ms => (n, canonical j) :: canonicalMembers ms

end

/-- A digit of base sixteen, lower case. -/
def hexDigit (n : Nat) : Char :=
  if n < 10 then Char.ofNat (48 + n) else Char.ofNat (87 + n)

/-- One character inside a JSON string. -/
def escape (c : Char) : String :=
  if c == '"' then "\\\""
  else if c == '\\' then "\\\\"
  else if c == '\n' then "\\n"
  else if c == '\r' then "\\r"
  else if c == '\t' then "\\t"
  else if c == '\x08' then "\\b"
  else if c == '\x0c' then "\\f"
  else if c.toNat < 0x20 then String.ofList ['\\', 'u', '0', '0', hexDigit (c.toNat / 16), hexDigit (c.toNat % 16)]
  else c.toString

/-- A string with its quotes. -/
def quote (s : String) : String :=
  "\"" ++ s.foldl (fun out c => out ++ escape c) "" ++ "\""

mutual

/-- The compact text of a document. -/
def render : Json → String
  | .null => "null"
  | .bool true => "true"
  | .bool false => "false"
  | .number n => n.render
  | .string s => quote s
  | .array items => "[" ++ ",".intercalate (renderItems items) ++ "]"
  | .object members => "\x7b" ++ ",".intercalate (renderMembers members) ++ "\x7d"

/-- The texts of the items of an array. -/
def renderItems : List Json → List String
  | [] => []
  | j :: js => render j :: renderItems js

/-- The texts of the members of an object. -/
def renderMembers : List (String × Json) → List String
  | [] => []
  | (n, j) :: ms => (quote n ++ ":" ++ render j) :: renderMembers ms

end

/-- The last member of a name. -/
def member? (j : Json) (name : String) : Option Json :=
  match j with
  | .object members => (members.reverse.find? (·.1 == name)).map (·.2)
  | _ => none

end Json

end DualShell
