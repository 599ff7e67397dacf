import DualShell.Value.Equality
import DualShell.Value.Exception

/-!
# Indexing values

A list is indexed by position or by slice, a string by byte position or slice, a map by key and an exception by field.
Positions are decimal texts; a negative one counts from the end. A slice is two positions around two dots, each of them
optional.
-/

namespace DualShell

namespace Position

/-- The value of decimal digits, of which there is at least one. -/
def digits? (cs : List Char) : Option Nat :=
  if cs.isEmpty || !cs.all Char.isDigit then none
  else some (cs.foldl (fun n c => n * 10 + (c.toNat - 48)) 0)

/-- The 64-bit integer a text writes, with an optional sign. -/
def parse? (cs : List Char) : Option Int :=
  match cs with
  | '-' :: ds =>
    match digits? ds with
    | some n => if n ≤ Nat.pow 2 63 then some (-(n : Int)) else none
    | none => none
  | '+' :: ds =>
    match digits? ds with
    | some n => if n < Nat.pow 2 63 then some n else none
    | none => none
  | ds =>
    match digits? ds with
    | some n => if n < Nat.pow 2 63 then some n else none
    | none => none

/-- The place a position means among `length` places, if it is not before the first. -/
def fromStart? (length : Nat) (i : Int) : Option Nat :=
  let place := if i < 0 then (length : Int) + i else i
  if place < 0 then none else some place.toNat

/-- The place of one element. -/
def element (key : String) (length : Nat) : Except Cause Nat :=
  match parse? key.toList with
  | none => .error (.index s!"bad index: {key}")
  | some i =>
    match fromStart? length i with
    | some p => if p < length then .ok p else .error (.index s!"index out of range: {key}")
    | none => .error (.index s!"index out of range: {key}")

/-- The characters before and after the first two adjacent dots. -/
def splitDots : List Char → Option (List Char × List Char)
  | [] => none
  | c :: cs =>
    match c, cs with
    | '.', '.' :: rest => some ([], rest)
    | _, _ =>
      match splitDots cs with
      | none => none
      | some (front, back) => some (c :: front, back)

/-- One bound of a slice; an absent one has a default. -/
def bound (key : String) (length default : Nat) (cs : List Char) : Except Cause Nat :=
  if cs.isEmpty then .ok default
  else
    match parse? cs with
    | none => .error (.index s!"bad slice: {key}")
    | some i =>
      match fromStart? length i with
      | some p => if p ≤ length then .ok p else .error (.index s!"slice out of range: {key}")
      | none => .error (.index s!"slice out of range: {key}")

/-- The bounds of a slice, or nothing if the key is not one. -/
def slice? (key : String) (length : Nat) : Except Cause (Option (Nat × Nat)) := do
  match splitDots key.toList with
  | none => return none
  | some (front, back) =>
    let start ← bound key length 0 front
    let stop ← bound key length length back
    if start > stop then throw (.index s!"inverted slice: {key}")
    return some (start, stop)

end Position

namespace ByteText

/-- The characters from a byte offset on, if a character starts there or the text ends there. -/
def drop? : Nat → List Char → Option (List Char)
  | 0, cs => some cs
  | _ + 1, [] => none
  | n + 1, c :: cs => if c.utf8Size ≤ n + 1 then drop? (n + 1 - c.utf8Size) cs else none

/-- The characters of the first bytes, if a character ends there. -/
def take? : Nat → List Char → Option (List Char)
  | 0, _ => some []
  | _ + 1, [] => none
  | n + 1, c :: cs =>
    if c.utf8Size ≤ n + 1 then (take? (n + 1 - c.utf8Size) cs).map (c :: ·) else none

/-- The text between two byte offsets, if both lie between characters. -/
def slice? (s : String) (start stop : Nat) : Option String :=
  match drop? start s.toList with
  | none => none
  | some cs => (take? (stop - start) cs).map String.ofList

/-- The byte offset after the character at an offset, or the offset itself if no character starts there. -/
def after (s : String) (start : Nat) : Nat :=
  match drop? start s.toList with
  | some (c :: _) => start + c.utf8Size
  | _ => start

end ByteText

namespace Value

/-- The item or the slice of a list. -/
def indexList (items : List Value) (key : String) : Except Cause Value := do
  match ← Position.slice? key items.length with
  | some (start, stop) => return .list ((items.drop start).take (stop - start))
  | none =>
    let i ← Position.element key items.length
    return items.getD i .empty

/-- The character or the slice of a string. -/
def indexString (s : String) (key : String) : Except Cause Value := do
  let (start, stop) ←
    match ← Position.slice? key s.utf8ByteSize with
    | some range => pure range
    | none => do
      let i ← Position.element key s.utf8ByteSize
      pure (i, ByteText.after s i)
  match ByteText.slice? s start stop with
  | some sub => return .string sub
  | none => throw (.index s!"{key} is not a character boundary")

/-- The element of a value under a key. -/
def index (v key : Value) : Except Cause Value := do
  match v with
  | .list items => indexList items (← key.expectString "list index")
  | .map pairs =>
    match lookup? pairs key with
    | some v => return v
    | none => throw (.index s!"no such key: {key.repr}")
  | .string s => indexString s (← key.expectString "string index")
  | .exception _ e =>
    let field ← key.expectString "exception field"
    match e.field? field with
    | some v => return v
    | none => throw (.index s!"exception has no field {field}")
  | v => throw (.type s!"cannot index {v.kind}")

/-- The value with one element replaced, or added to a map. -/
def assoc (v key value : Value) : Except Cause Value := do
  match v with
  | .list items =>
    let i ← Position.element (← key.expectString "list index") items.length
    return .list (items.set i value)
  | .map pairs => return .map (insertPair pairs key value)
  | v => throw (.type s!"cannot assign into {v.kind}")

/-- The value with one element removed. -/
def dissoc (v key : Value) : Except Cause Value := do
  match v with
  | .list items =>
    let i ← Position.element (← key.expectString "list index") items.length
    return .list (items.eraseIdx i)
  | .map pairs =>
    let kept := pairs.filter fun p => !(p.1 == key)
    if kept.length == pairs.length then throw (.index s!"no such key: {key.repr}")
    return .map kept
  | v => throw (.type s!"cannot delete from {v.kind}")

/-- The value with the element at the end of a path of keys replaced. -/
def assocPath (v : Value) (keys : List Value) (value : Value) : Except Cause Value :=
  match keys with
  | [] => .ok value
  | [key] => v.assoc key value
  | key :: rest => do
    let child ← v.index key
    let child ← child.assocPath rest value
    v.assoc key child

/-- The value with the element at the end of a path of keys removed. -/
def dissocPath (v : Value) (keys : List Value) : Except Cause Value :=
  match keys with
  | [] => .ok v
  | [key] => v.dissoc key
  | key :: rest => do
    let child ← v.index key
    let child ← child.dissocPath rest
    v.assoc key child

/-- Give identities from `fresh` on to the exceptions that have none, in a value or one level into a list; how many were
given. -/
def adopt (fresh : Nat) : Value → Value × Nat
  | .exception 0 e => (.exception fresh e, 1)
  | .list items =>
    let (items, n) := items.foldl
      (fun acc v =>
        match v with
        | .exception 0 e => (Value.exception (fresh + acc.2) e :: acc.1, acc.2 + 1)
        | v => (v :: acc.1, acc.2))
      (([], 0) : List Value × Nat)
    (.list items.reverse, n)
  | v => (v, 0)

end Value

end DualShell
