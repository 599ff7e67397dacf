/-!
# Text as bytes

UTF-8 both ways. Byte streams carry any bytes, so there are two readings: the strict one names the first offending
sequence, the lenient one puts U+FFFD in place of each maximal ill-formed sequence. Both are folds of one `scan` step,
which looks at the lead byte, the range it sets for the second byte, and the tails it owes.
-/

namespace DualShell

/-- The content of a byte stream. -/
abbrev Bytes := List UInt8

namespace Utf8

/-- The UTF-8 encoding of a string. -/
def encode (s : String) : Bytes :=
  s.toByteArray.data.toList

/-- What a lead byte announces: its own payload, the range of the byte after it, and how many tails follow in all. -/
structure Lead where
  payload : Nat
  low : UInt8
  high : UInt8
  tails : Nat
  deriving DecidableEq, Repr

/-- The announcement of a lead byte of a sequence of two to four bytes. -/
def Lead.of? (b : UInt8) : Option Lead :=
  if 0xC2 ≤ b && b ≤ 0xDF then some ⟨(b &&& 0x1F).toNat, 0x80, 0xBF, 1⟩
  else if b == 0xE0 then some ⟨0, 0xA0, 0xBF, 2⟩
  else if b == 0xED then some ⟨0xD, 0x80, 0x9F, 2⟩
  else if 0xE1 ≤ b && b ≤ 0xEF then some ⟨(b &&& 0x0F).toNat, 0x80, 0xBF, 2⟩
  else if b == 0xF0 then some ⟨0, 0x90, 0xBF, 3⟩
  else if b == 0xF4 then some ⟨4, 0x80, 0x8F, 3⟩
  else if 0xF1 ≤ b && b ≤ 0xF3 then some ⟨(b &&& 0x07).toNat, 0x80, 0xBF, 3⟩
  else none

/-- The result of reading the continuation bytes of one character. -/
inductive Tails
  /-- All tails are there: the code point. -/
  | whole (code : Nat)
  /-- The next byte, present, cannot continue the sequence after `taken` continuation bytes. -/
  | broken (taken : Nat)
  /-- The input ends after `taken` continuation bytes. -/
  | cut (taken : Nat)
  deriving DecidableEq, Repr

/-- Read `owed` tails; the first lies between `low` and `high`, the others are plain tails. -/
def tails (code taken : Nat) (low high : UInt8) : Nat → Bytes → Tails
  | 0, _ => .whole code
  | _ + 1, [] => .cut taken
  | owed + 1, b :: rest =>
    if low ≤ b && b ≤ high then tails (code * 64 + (b &&& 0x3F).toNat) (taken + 1) 0x80 0xBF owed rest
    else .broken taken

/-- One step of reading at the head of a byte sequence. -/
inductive Scan
  /-- A character of `length` bytes. -/
  | char (c : Char) (length : Nat)
  /-- An ill-formed sequence of `length` bytes that no further input can mend. -/
  | broken (length : Nat)
  /-- The input ends inside a character, of which `length` bytes are there. -/
  | cut (length : Nat)
  deriving DecidableEq, Repr

/-- Look at one character. -/
def scan (b : UInt8) (rest : Bytes) : Scan :=
  if b < 0x80 then .char (Char.ofNat b.toNat) 1
  else
    match Lead.of? b with
    | none => .broken 1
    | some lead =>
      match tails lead.payload 0 lead.low lead.high lead.tails rest with
      | .whole code => .char (Char.ofNat code) (lead.tails + 1)
      | .broken taken => .broken (taken + 1)
      | .cut taken => .cut (taken + 1)

/-- How many bytes a step covers. -/
def Scan.length : Scan → Nat
  | .char _ n => n
  | .broken n => n
  | .cut n => n

/-- The lenient reading: U+FFFD stands for each ill-formed sequence and for a character cut off by the end. The
characters read so far are kept latest first. The first argument bounds the number of steps; the length of the input is
always enough. -/
def lenientChars : Nat → List Char → Bytes → List Char
  | 0, seen, _ => seen.reverse
  | _, seen, [] => seen.reverse
  | fuel + 1, seen, b :: rest =>
    match scan b rest with
    | .char c n => lenientChars fuel (c :: seen) (rest.drop (n - 1))
    | .broken n => lenientChars fuel ('\uFFFD' :: seen) (rest.drop (n - 1))
    | .cut n => lenientChars fuel ('\uFFFD' :: seen) (rest.drop (n - 1))

/-- Any bytes as text. -/
def decodeLenient (bs : Bytes) : String :=
  String.ofList (lenientChars bs.length [] bs)

/-- Why bytes are not UTF-8. -/
inductive Fault
  /-- `length` bytes from `index` on can never be part of a character. -/
  | invalid (length index : Nat)
  /-- The input ends inside the character that starts at `index`. -/
  | incomplete (index : Nat)
  deriving DecidableEq, Repr

/-- The wording of an encoding fault. -/
def Fault.message : Fault → String
  | .invalid length index => s!"invalid utf-8 sequence of {length} bytes from index {index}"
  | .incomplete index => s!"incomplete utf-8 byte sequence from index {index}"

/-- The strict reading from byte `index` on. -/
def strictChars : Nat → Nat → List Char → Bytes → Except Fault (List Char)
  | 0, _, seen, _ => .ok seen.reverse
  | _, _, seen, [] => .ok seen.reverse
  | fuel + 1, index, seen, b :: rest =>
    match scan b rest with
    | .char c n => strictChars fuel (index + n) (c :: seen) (rest.drop (n - 1))
    | .broken n => .error (.invalid n index)
    | .cut _ => .error (.incomplete index)

/-- Bytes that are UTF-8, as text. -/
def decode (bs : Bytes) : Except Fault String :=
  (strictChars bs.length 0 [] bs).map String.ofList

end Utf8

end DualShell
