import DualShell.Json.Basic
import DualShell.Value.Equality

/-!
# Values as JSON documents

Strings, booleans, lists and maps with string keys have a JSON form. In the other direction a number becomes the string
of its digits and null the empty string; the members of an object come sorted, the last of each name.
-/

namespace DualShell.Value

mutual

/-- The document of a value, if it has one. -/
def toJson : Value → Except Cause Json
  | .string s => .ok (.string s)
  | .bool b => .ok (.bool b)
  | .list items => do return .array (← itemsToJson items)
  | .map pairs => do return .object (← membersInto [] pairs)
  | v => .error (.type s!"cannot encode {v.kind} as json")

/-- The documents of the items of a list. -/
def itemsToJson : List Value → Except Cause (List Json)
  | [] => .ok []
  | v :: vs => do
    let j ← v.toJson
    return j :: (← itemsToJson vs)

/-- The members for the pairs of a map, added to sorted members. -/
def membersInto (sorted : List (String × Json)) : List (Value × Value) → Except Cause (List (String × Json))
  | [] => .ok sorted
  | (k, v) :: ps => do
    let name ← k.expectString "json object key"
    let j ← v.toJson
    membersInto (Named.insert name j sorted) ps

end

mutual

/-- The value of a document. -/
def ofJson : Json → Value
  | .null => .empty
  | .bool b => .bool b
  | .number n => .string n.render
  | .string s => .string s
  | .array items => .list (ofItems items)
  | .object members => mapOf ((Named.ofList (ofMembers members)).map fun m => (.string m.1, m.2))

/-- The values of the items of an array. -/
def ofItems : List Json → List Value
  | [] => []
  | j :: js => ofJson j :: ofItems js

/-- The values of the members of an object. -/
def ofMembers : List (String × Json) → List (String × Value)
  | [] => []
  | (n, j) :: ms => (n, ofJson j) :: ofMembers ms

end

end DualShell.Value
