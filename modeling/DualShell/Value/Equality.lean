import DualShell.Value.Basic

/-!
# Equality of values

Strings, booleans and lists are compared by content, maps by content without regard to order, and closures, exceptions and
namespaces by identity.
-/

namespace DualShell

mutual

/-- Whether two values are equal. -/
def Value.beq : Value → Value → Bool
  | .string a, .string b => a == b
  | .bool a, .bool b => a == b
  | .list xs, .list ys => Value.beqItems xs ys
  | .map ps, .map qs => ps.length == qs.length && Value.coveredBy ps qs
  | .closure a, .closure b => a.identity == b.identity
  | .ok, .ok => true
  | .exception i _, .exception j _ => i == j
  | .ns a, .ns b => a.identity == b.identity
  | _, _ => false

/-- Whether two lists are equal item by item. -/
def Value.beqItems : List Value → List Value → Bool
  | [], [] => true
  | x :: xs, y :: ys => x.beq y && Value.beqItems xs ys
  | _, _ => false

/-- Whether every pair of the first list has an equal pair in the second. -/
def Value.coveredBy : List (Value × Value) → List (Value × Value) → Bool
  | [], _ => true
  | (k, v) :: ps, qs => qs.any (fun q => k.beq q.1 && v.beq q.2) && Value.coveredBy ps qs

end

instance : BEq Value := ⟨Value.beq⟩

namespace Value

/-- The value of a key in a list of pairs. -/
def lookup? (pairs : List (Value × Value)) (key : Value) : Option Value :=
  (pairs.find? (·.1 == key)).map (·.2)

/-- Give a key a value: in its place if the key is there, else at the end. -/
def insertPair (pairs : List (Value × Value)) (key value : Value) : List (Value × Value) :=
  match pairs with
  | [] => [(key, value)]
  | (k, v) :: rest => if k == key then (k, value) :: rest else (k, v) :: insertPair rest key value

/-- The map of a list of pairs: a repeated key keeps its first place and takes its last value. -/
def mapOf (pairs : List (Value × Value)) : Value :=
  .map (pairs.foldl (fun out p => insertPair out p.1 p.2) [])

end Value

end DualShell
