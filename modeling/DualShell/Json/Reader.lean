import DualShell.Json.Basic
import DualShell.Text.Utf8

/-!
# Reading JSON

A reader of JSON text that says what is wrong and where. Reading is a walk of a cursor over bytes; nesting beyond a
limit is a fault of its own. `Json.read` takes a text that is one document, `Json.readStream` the documents that follow
each other in one text, up to the first fault.
-/

namespace DualShell.Json

/-- What can be wrong with a JSON text. -/
inductive Flaw
  | endInList | endInObject | endInString | endInValue
  | noColon | noListComma | noObjectComma | badWord | noValue
  | badEscape | badNumber | hugeNumber | badText | controlInString
  | keyNotString | loneSurrogate | halfSurrogate | trailingComma | trailing | tooDeep
  deriving DecidableEq, Repr

/-- The wording of a flaw. -/
def Flaw.message : Flaw → String
  | .endInList => "EOF while parsing a list"
  | .endInObject => "EOF while parsing an object"
  | .endInString => "EOF while parsing a string"
  | .endInValue => "EOF while parsing a value"
  | .noColon => "expected \x60:\x60"
  | .noListComma => "expected \x60,\x60 or \x60]\x60"
  | .noObjectComma => "expected \x60,\x60 or \x60\x7d\x60"
  | .badWord => "expected ident"
  | .noValue => "expected value"
  | .badEscape => "invalid escape"
  | .badNumber => "invalid number"
  | .hugeNumber => "number out of range"
  | .badText => "invalid unicode code point"
  | .controlInString => "control character (\\u0000-\\u001F) found while parsing a string"
  | .keyNotString => "key must be a string"
  | .loneSurrogate => "lone leading surrogate in hex escape"
  | .halfSurrogate => "unexpected end of hex escape"
  | .trailingComma => "trailing comma"
  | .trailing => "trailing characters"
  | .tooDeep => "recursion limit exceeded"

/-- A flaw and how many bytes of the text lead up to and include the place where it shows. -/
structure Fault where
  flaw : Flaw
  offset : Nat
  deriving DecidableEq, Repr

/-- The line of an offset, from 1, and the number of bytes of that line before it. -/
def position (text : Bytes) (offset : Nat) : Nat × Nat :=
  (text.take offset).foldl (fun (p : Nat × Nat) (b : UInt8) => if b == 10 then (p.1 + 1, 0) else (p.1, p.2 + 1)) (1, 0)

/-- The wording of a fault in its text. -/
def Fault.message (text : Bytes) (f : Fault) : String :=
  let (line, column) := position text f.offset
  s!"{f.flaw.message} at line {line} column {column}"

/-- What is left to read, and how many bytes were read before it. -/
structure Cursor where
  rest : Bytes
  offset : Nat

/-- Reading from a cursor. -/
abbrev Read := StateT Cursor (Except Fault)

/-- Fail at the bytes read so far. -/
def failHere {α : Type} (flaw : Flaw) : Read α :=
  fun c => .error ⟨flaw, c.offset⟩

/-- Fail at the byte that comes next, or at the end of the text. -/
def failNext {α : Type} (flaw : Flaw) : Read α :=
  fun c => .error ⟨flaw, if c.rest.isEmpty then c.offset else c.offset + 1⟩

/-- The next byte, left in place. -/
def peek : Read (Option UInt8) :=
  fun c => .ok (c.rest.head?, c)

/-- Step over the next byte, if there is one. -/
def skip : Read Unit :=
  fun c => .ok ((), ⟨c.rest.tail, if c.rest.isEmpty then c.offset else c.offset + 1⟩)

/-- The next byte, stepped over. -/
def next : Read (Option UInt8) :=
  fun c =>
    match c.rest with
    | [] => .ok (none, c)
    | b :: rest => .ok (some b, ⟨rest, c.offset + 1⟩)

/-- The blanks that may stand between the parts of a document. -/
def isBlank (b : UInt8) : Bool :=
  b == 32 || b == 10 || b == 9 || b == 13

/-- A decimal digit. -/
def isDigit (b : UInt8) : Bool :=
  48 ≤ b && b ≤ 57

/-- Drop leading bytes of a class, counting them. -/
def dropCounting (p : UInt8 → Bool) : Nat → Bytes → Bytes × Nat
  | n, b :: rest => if p b then dropCounting p (n + 1) rest else (b :: rest, n)
  | n, [] => ([], n)

/-- Step over blanks and look at what follows. -/
def peekSolid : Read (Option UInt8) :=
  fun c =>
    let (rest, n) := dropCounting isBlank 0 c.rest
    .ok (rest.head?, ⟨rest, c.offset + n⟩)

/-- The leading digits, stepped over. -/
def takeDigits : Read (List UInt8) :=
  fun c =>
    let ds := c.rest.takeWhile isDigit
    .ok (ds, ⟨c.rest.drop ds.length, c.offset + ds.length⟩)

/-- The greatest whole number the digits of a number are gathered in. -/
def wordMax : Nat := Nat.pow 2 64 - 1

/-- The value of a digit. -/
def digitValue (b : UInt8) : Nat := (b - 48).toNat

/-- Gather digits while the number stays a 64-bit word; the digits that no longer fit are left. -/
def gather : Nat → List UInt8 → Nat × List UInt8
  | n, [] => (n, [])
  | n, d :: ds => if n * 10 + digitValue d > wordMax then (n, d :: ds) else gather (n * 10 + digitValue d) ds

/-- `significand · 10 ^ exponent` in floating point, by one product or by quotients; none if it leaves the range. -/
def scaled (significand : Float) : (fuel : Nat) → Int → Option Float
  | 0, _ => some significand
  | fuel + 1, e =>
    if e.natAbs ≤ 308 then
      let power := Float.ofScientific 1 false e.natAbs
      if e ≥ 0 then
        let f := significand * power
        if f.isInf then none else some f
      else some (significand / power)
    else if significand == 0.0 then some significand
    else if e ≥ 0 then none
    else scaled (significand / 1e308) fuel (e + 308)

/-- The number with this sign, significand and decimal exponent. -/
def binaryNumber (positive : Bool) (significand : Nat) (exponent : Int) : Read JsonNumber :=
  match scaled significand.toUInt64.toFloat 16 exponent with
  | none => failHere .hugeNumber
  | some f => pure (.binary (if positive then f else -f).toBits)

/-- The exponent part, its mark not yet read. -/
def exponentPart (positive : Bool) (significand : Nat) (start : Int) : Read JsonNumber := do
  skip
  let up ← match ← peek with
    | some 43 => do skip; pure true
    | some 45 => do skip; pure false
    | _ => pure true
  match ← next with
  | none => failHere .endInValue
  | some b =>
    if isDigit b then
      let ds ← takeDigits
      let exponent := (b :: ds).foldl (fun n d => n * 10 + digitValue d) 0
      if exponent > Nat.pow 2 31 - 1 then
        if significand != 0 && up then failHere .hugeNumber
        else pure (.binary (if positive then (0.0 : Float) else -0.0).toBits)
      else binaryNumber positive significand (if up then start + exponent else start - exponent)
    else failHere .badNumber

/-- Go on after the digits before or after the point: an exponent may follow. -/
def afterDigits (positive : Bool) (significand : Nat) (exponent : Int) : Read JsonNumber := do
  match ← peek with
  | some 101 => exponentPart positive significand exponent
  | some 69 => exponentPart positive significand exponent
  | _ => binaryNumber positive significand exponent

/-- The fraction part, its point not yet read. -/
def fractionPart (positive : Bool) (significand : Nat) (before : Int) : Read JsonNumber := do
  skip
  let ds ← takeDigits
  if ds.isEmpty then
    match ← peek with
    | some _ => failNext .badNumber
    | none => failNext .endInValue
  else
    let (n, left) := gather significand ds
    afterDigits positive n (before - ((ds.length - left.length : Nat) : Int))

/-- What may follow the whole part of a number; `spare` is the count of digits that did not fit. -/
def afterWhole (positive : Bool) (whole spare : Nat) : Read JsonNumber := do
  match ← peek with
  | some 46 => fractionPart positive whole spare
  | some 101 => exponentPart positive whole spare
  | some 69 => exponentPart positive whole spare
  | _ =>
    if spare > 0 then binaryNumber positive whole spare
    else if positive then pure (.integer whole)
    else if whole == 0 || whole > Nat.pow 2 63 then pure (.binary (-whole.toUInt64.toFloat).toBits)
    else pure (.integer (-whole))

/-- A number after its sign. -/
def numeral (positive : Bool) : Read JsonNumber := do
  match ← next with
  | none => failHere .endInValue
  | some b =>
    if b == 48 then
      match ← peek with
      | some d => if isDigit d then failNext .badNumber else afterWhole positive 0 0
      | none => afterWhole positive 0 0
    else if isDigit b then
      let ds ← takeDigits
      let (n, left) := gather (digitValue b) ds
      afterWhole positive n left.length
    else failHere .badNumber

/-- The value of a digit of base sixteen. -/
def hexValue? (b : UInt8) : Option Nat :=
  if isDigit b then some (digitValue b)
  else if 97 ≤ b && b ≤ 102 then some (b.toNat - 87)
  else if 65 ≤ b && b ≤ 70 then some (b.toNat - 55)
  else none

/-- Four digits of base sixteen. -/
def hexFour : Read Nat :=
  fun c =>
    match c.rest with
    | w :: x :: y :: z :: rest =>
      match hexValue? w, hexValue? x, hexValue? y, hexValue? z with
      | some w, some x, some y, some z => .ok (((w * 16 + x) * 16 + y) * 16 + z, ⟨rest, c.offset + 4⟩)
      | _, _, _, _ => .error ⟨.badEscape, c.offset + 4⟩
    | short => .error ⟨.endInString, c.offset + short.length⟩

/-- Expect one given byte between the halves of a surrogate pair. -/
def expectHalf (b : UInt8) : Read Unit := do
  match ← next with
  | none => failHere .endInString
  | some x => if x == b then pure () else failHere .halfSurrogate

/-- The character of a numeric escape, its mark already read. -/
def numericEscape : Read Char := do
  let n ← hexFour
  if 0xDC00 ≤ n && n ≤ 0xDFFF then failHere .loneSurrogate
  else if n < 0xD800 || 0xDBFF < n then pure (Char.ofNat n)
  else
    expectHalf 92
    expectHalf 117
    let m ← hexFour
    if m < 0xDC00 || 0xDFFF < m then failHere .loneSurrogate
    else pure (Char.ofNat (0x10000 + (n - 0xD800) * 1024 + (m - 0xDC00)))

/-- The bytes an escape stands for, its backslash already read. -/
def escapeBytes : Read Bytes := do
  match ← next with
  | none => failHere .endInString
  | some b =>
    if b == 34 || b == 92 || b == 47 then pure [b]
    else if b == 98 then pure [8]
    else if b == 102 then pure [12]
    else if b == 110 then pure [10]
    else if b == 114 then pure [13]
    else if b == 116 then pure [9]
    else if b == 117 then do
      let c ← numericEscape
      pure (String.utf8EncodeChar c)
    else failHere .badEscape

/-- The rest of a string after its opening quote; the bytes so far are kept latest first. -/
def stringBytes : Nat → Bytes → Read Bytes
  | 0, _ => failHere .endInString
  | fuel + 1, seen => do
    match ← next with
    | none => failHere .endInString
    | some b =>
      if b == 34 then pure seen.reverse
      else if b == 92 then
        let bs ← escapeBytes
        stringBytes fuel (bs.reverse ++ seen)
      else if b < 32 then failHere .controlInString
      else stringBytes fuel (b :: seen)

/-- How many bytes lie before the closing quote, or before the end if there is none; `n` have been counted. -/
def quotedLength (n : Nat) : Bytes → Nat
  | [] => n
  | 92 :: _ :: rest => quotedLength (n + 2) rest
  | b :: rest => if b == 34 then n else quotedLength (n + 1) rest

/-- A string after its opening quote. -/
def stringText : Read String := do
  let c ← get
  let bs ← stringBytes (quotedLength 0 c.rest + 1) []
  match Utf8.decode bs with
  | .ok s => pure s
  | .error _ => failHere .badText

/-- The remaining letters of a fixed word. -/
def word : List UInt8 → Read Unit
  | [] => pure ()
  | b :: bs => do
    match ← next with
    | none => failHere .endInValue
    | some x => if x == b then word bs else failHere .badWord

mutual

/-- A value; `depth` arrays and objects may still be opened. -/
def value : (fuel depth : Nat) → Read Json
  | 0, _ => failNext .endInValue
  | fuel + 1, depth => do
    match ← peekSolid with
    | none => failNext .endInValue
    | some b =>
      if b == 110 then do skip; word [117, 108, 108]; pure .null
      else if b == 116 then do skip; word [114, 117, 101]; pure (.bool true)
      else if b == 102 then do skip; word [97, 108, 115, 101]; pure (.bool false)
      else if b == 45 then do skip; return .number (← numeral false)
      else if isDigit b then return .number (← numeral true)
      else if b == 34 then do skip; return .string (← stringText)
      else if b == 91 then
        match depth with
        | 0 => failNext .tooDeep
        | depth + 1 => do skip; return .array (← items fuel depth true [])
      else if b == 123 then
        match depth with
        | 0 => failNext .tooDeep
        | depth + 1 => do skip; return .object (← members fuel depth true [])
      else failNext .noValue

/-- The rest of an array; the items so far are kept latest first. -/
def items : (fuel depth : Nat) → Bool → List Json → Read (List Json)
  | 0, _, _, _ => failNext .endInList
  | fuel + 1, depth, isFirst, seen => do
    match ← peekSolid with
    | none => failNext .endInList
    | some b =>
      if b == 93 then do skip; pure seen.reverse
      else if isFirst then do
        let j ← value fuel depth
        items fuel depth false (j :: seen)
      else if b == 44 then do
        skip
        match ← peekSolid with
        | some 93 => failNext .trailingComma
        | none => failNext .endInValue
        | some _ => do
          let j ← value fuel depth
          items fuel depth false (j :: seen)
      else failNext .noListComma

/-- The rest of an object; the members so far are kept latest first. -/
def members : (fuel depth : Nat) → Bool → List (String × Json) → Read (List (String × Json))
  | 0, _, _, _ => failNext .endInObject
  | fuel + 1, depth, isFirst, seen => do
    match ← peekSolid with
    | none => failNext .endInObject
    | some b =>
      if b == 125 then do skip; pure seen.reverse
      else if isFirst then
        if b == 34 then do
          let m ← member fuel depth
          members fuel depth false (m :: seen)
        else failNext .keyNotString
      else if b == 44 then do
        skip
        match ← peekSolid with
        | some 34 => do
          let m ← member fuel depth
          members fuel depth false (m :: seen)
        | some 125 => failNext .trailingComma
        | some _ => failNext .keyNotString
        | none => failNext .endInValue
      else failNext .noObjectComma

/-- One member, from its opening quote on. -/
def member : (fuel depth : Nat) → Read (String × Json)
  | 0, _ => failNext .endInObject
  | fuel + 1, depth => do
    skip
    let name ← stringText
    match ← peekSolid with
    | some 58 => do
      skip
      let j ← value fuel depth
      pure (name, j)
    | some _ => failNext .noColon
    | none => failNext .endInObject

end

/-- The deepest nesting of arrays and objects a text may have. -/
def nestingLimit : Nat := 127

/-- A text that is one document, nested at most `limit` deep. -/
def readWithin (limit : Nat) (text : Bytes) : Except Fault Json :=
  let start : Cursor := ⟨text, 0⟩
  let whole : Read Json := do
    let j ← value (2 * text.length + 2) limit
    match ← peekSolid with
    | none => pure j
    | some _ => failNext .trailing
  (whole.run start).map (·.1)

/-- A text that is one document. -/
def read (text : Bytes) : Except Fault Json :=
  readWithin nestingLimit text

/-- The bytes that may follow a number or a fixed word at once. -/
def endsWord (b : UInt8) : Bool :=
  isBlank b || b == 34 || b == 91 || b == 93 || b == 123 || b == 125 || b == 44 || b == 58

/-- One document of a stream; none at the end of the text. -/
def streamItem (size : Nat) : Read (Option Json) := do
  match ← peekSolid with
  | none => pure none
  | some b =>
    let j ← value (2 * size + 2) nestingLimit
    if b == 34 || b == 91 || b == 123 then pure (some j)
    else
      match ← peek with
      | none => pure (some j)
      | some after => if endsWord after then pure (some j) else failNext .trailing

/-- The documents of a stream from a cursor on, and the fault that ended it, if any. -/
def streamFrom : (fuel size : Nat) → Cursor → List Json → List Json × Option Fault
  | 0, _, _, seen => (seen.reverse, none)
  | fuel + 1, size, c, seen =>
    match (streamItem size).run c with
    | .error f => (seen.reverse, some f)
    | .ok (none, _) => (seen.reverse, none)
    | .ok (some j, c) => streamFrom fuel size c (j :: seen)

/-- The documents that follow each other in a text, up to the end or to the first fault. -/
def readStream (text : Bytes) : List Json × Option Fault :=
  streamFrom (text.length + 1) text.length ⟨text, 0⟩ []

end DualShell.Json
