import DualShell.Text.Utf8

/-!
# Formats

What the programs that print write for their arguments. A format is read to pieces first: bytes as they are, and
conversions that take an argument each. It is used again as long as arguments are left.
-/

namespace DualShell.Format

/-- What comes out of an escape. -/
inductive Escaped
  | bytes (data : Bytes)
  /-- Nothing more is written. -/
  | stop

/-- The value of an octal digit. -/
def octal? (c : Char) : Option Nat :=
  if '0' ≤ c && c ≤ '7' then some (c.toNat - '0'.toNat) else none

/-- Up to so many octal digits: their value, and what follows them. -/
def octalDigits : Nat → Nat → List Char → Nat × List Char
  | 0, value, cs => (value, cs)
  | _, value, [] => (value, [])
  | limit + 1, value, c :: cs =>
    match octal? c with
    | some d => octalDigits limit (8 * value + d) cs
    | none => (value, c :: cs)

/-- The byte of an escape by a letter. -/
def letterEscape? (c : Char) : Option UInt8 :=
  match c with
  | '\\' => some 92
  | 'a' => some 7
  | 'b' => some 8
  | 'e' => some 27
  | 'f' => some 12
  | 'n' => some 10
  | 'r' => some 13
  | 't' => some 9
  | 'v' => some 11
  | _ => none

/-- Read an escape behind its backslash. In texts the octal digits follow a zero. -/
def escape (inText : Bool) : List Char → Escaped × List Char
  | [] => (.bytes [92], [])
  | 'c' :: rest => (.stop, rest)
  | c :: rest =>
    match letterEscape? c with
    | some b => (.bytes [b], rest)
    | none =>
      if c == '"' && !inText then (.bytes [34], rest)
      else if c == '0' && inText then
        let (value, rest) := octalDigits 3 0 rest
        (.bytes [UInt8.ofNat value], rest)
      else if (octal? c).isSome && !inText then
        let (value, rest) := octalDigits 3 0 (c :: rest)
        (.bytes [UInt8.ofNat value], rest)
      else (.bytes (92 :: Utf8.encode c.toString), rest)

/-- A text with its escapes carried out, and whether more may be written after it. The first argument bounds the number
of steps; the length of the text is always enough. -/
def unescape : Nat → List Char → Bytes × Bool
  | 0, _ => ([], true)
  | _, [] => ([], true)
  | fuel + 1, '\\' :: cs =>
    match escape true cs with
    | (.stop, _) => ([], false)
    | (.bytes data, rest) =>
      let (more, open_) := unescape fuel rest
      (data ++ more, open_)
  | fuel + 1, c :: cs =>
    let (more, open_) := unescape fuel cs
    (Utf8.encode c.toString ++ more, open_)

/-- A conversion of an argument: how it is padded and cut, and the letter of its kind. -/
structure Conversion where
  left : Bool
  zeros : Bool
  width : Nat
  precision : Option Nat
  kind : Char

/-- A piece of a format. -/
inductive Piece
  | bytes (data : Bytes)
  | convert (c : Conversion)
  | stop

/-- A number at the head of a text. -/
def number (cs : List Char) : Nat × List Char :=
  ((cs.takeWhile Char.isDigit).foldl (fun n c => 10 * n + (c.toNat - '0'.toNat)) 0, cs.dropWhile Char.isDigit)

/-- Read a conversion behind its percent sign. -/
def conversion? (cs : List Char) : Option (Conversion × List Char) :=
  let flags := cs.takeWhile ("-0+ #".toList.contains ·)
  let (width, cs) := number (cs.drop flags.length)
  let (precision, cs) :=
    match cs with
    | '.' :: cs =>
      let (n, cs) := number cs
      (some n, cs)
    | cs => (none, cs)
  match cs with
  | [] => none
  | kind :: rest => some (⟨flags.contains '-', flags.contains '0', width, precision, kind⟩, rest)

/-- The pieces of a format. -/
def pieces : Nat → List Char → List Piece
  | 0, _ => []
  | _, [] => []
  | fuel + 1, '\\' :: cs =>
    match escape false cs with
    | (.stop, _) => [.stop]
    | (.bytes data, rest) => .bytes data :: pieces fuel rest
  | fuel + 1, '%' :: '%' :: cs => .bytes [37] :: pieces fuel cs
  | fuel + 1, '%' :: cs =>
    match conversion? cs with
    | some (c, rest) => .convert c :: pieces fuel rest
    | none => [.bytes [37]]
  | fuel + 1, c :: cs => .bytes (Utf8.encode c.toString) :: pieces fuel cs

/-- What there is to complain about. -/
inductive Complaint
  | notNumber (arg : String)
  | badConversion (kind : Char)
  /-- The format takes no arguments, and this is the first one given. -/
  | excess (arg : String)
  deriving DecidableEq, Repr

/-- The wording of a complaint. -/
def Complaint.message : Complaint → String
  | .notNumber arg => s!"'{arg}': expected a numeric value"
  | .badConversion kind => s!"%{kind}: invalid conversion specification"
  | .excess arg => s!"warning: ignoring excess arguments, starting with '{arg}'"

/-- The wording of a complaint in scripts, where arguments that nothing takes are nothing to complain about. -/
def Complaint.scriptMessage? : Complaint → Option String
  | .notNumber arg => some s!"{arg}: expected numeric value"
  | .badConversion kind => some s!"%{kind}: invalid directive"
  | .excess _ => none

/-- What was written, what there is to complain about, and whether more may be written. -/
structure Written where
  out : Bytes
  complaints : List Complaint
  open_ : Bool

/-- Nothing written. -/
def Written.nothing : Written := ⟨[], [], true⟩

/-- One after the other; what comes after a stop is not written. -/
def Written.append (a b : Written) : Written :=
  if a.open_ then ⟨a.out ++ b.out, a.complaints ++ b.complaints, b.open_⟩ else a

/-- Put fill before or behind some bytes up to a width. -/
def pad (c : Conversion) (fill : UInt8) (data : Bytes) : Bytes :=
  let filling := List.replicate (c.width - data.length) fill
  if c.left then data ++ filling.map fun _ => 32 else filling ++ data

/-- The digits of a number with at least as many places as the precision asks for. -/
def digits (c : Conversion) (base n : Nat) : Bytes :=
  let ds := (Nat.toDigits base n).map fun d => if c.kind == 'X' then d.toUpper else d
  let ds := ds.map fun d => UInt8.ofNat d.toNat
  List.replicate (c.precision.getD 0 - ds.length) 48 ++ ds

/-- A whole number as an argument gives it. -/
def integer? (s : String) : Option Int :=
  let read (cs : List Char) : Option Nat := if cs.isEmpty || !cs.all Char.isDigit then none else some (number cs).1
  match s.toList with
  | [] => some 0
  | '-' :: cs => (read cs).map fun n => -(n : Int)
  | '+' :: cs => (read cs).map Int.ofNat
  | cs => (read cs).map Int.ofNat

/-- Write one argument. -/
def convert (c : Conversion) (arg : String) : Written :=
  let plain (data : Bytes) : Written := ⟨pad c 32 data, [], true⟩
  let number (base : Nat) : Written :=
    let n := (integer? arg).getD 0
    let ds := digits c base (if base == 10 then n.natAbs else (n % Int.pow 2 64).toNat)
    let signed := if base == 10 && n < 0 then 45 :: ds else ds
    ⟨pad c (if c.zeros && !c.left then 48 else 32) signed,
      if (integer? arg).isSome then [] else [.notNumber arg], true⟩
  match c.kind with
  | 's' => plain (match c.precision with
    | some n => (Utf8.encode arg).take n
    | none => Utf8.encode arg)
  | 'c' => plain ((Utf8.encode arg).take 1)
  | 'b' =>
    let (data, open_) := unescape arg.length arg.toList
    ⟨pad c 32 data, [], open_⟩
  | 'd' => number 10
  | 'i' => number 10
  | 'u' => number 10
  | 'o' => number 8
  | 'x' => number 16
  | 'X' => number 16
  | kind => ⟨[], [.badConversion kind], false⟩

/-- Write the pieces of a format once; the arguments that are left. A missing argument counts as empty. -/
def once : List Piece → List String → Written × List String
  | [], args => (.nothing, args)
  | .bytes data :: ps, args =>
    let (w, args) := once ps args
    (Written.append ⟨data, [], true⟩ w, args)
  | .stop :: _, _ => (⟨[], [], false⟩, [])
  | .convert c :: ps, args =>
    let (w, rest) := once ps args.tail
    ((convert c (args.headD "")).append w, rest)

/-- Whether a piece takes an argument. -/
def Piece.takes : Piece → Bool
  | .convert _ => true
  | _ => false

/-- Write the pieces of a format as often as there are arguments for. -/
def repeated (ps : List Piece) : Nat → List String → Written
  | 0, args => (once ps args).1
  | fuel + 1, args =>
    let (w, rest) := once ps args
    match rest with
    | [] => w
    | next :: _ =>
      if ps.any Piece.takes then w.append (repeated ps fuel rest)
      else w.append ⟨[], [.excess next], true⟩

/-- What is written for a format and arguments. -/
def format (template : String) (args : List String) : Written :=
  repeated (pieces template.length template.toList) args.length args

/-- What is written for words: they are separated by blanks and ended by a newline, unless an option before them says
otherwise. -/
def echo (escapes newline : Bool) (args : List String) : Bytes :=
  let text := " ".intercalate args
  let (data, open_) := if escapes then unescape text.length text.toList else (Utf8.encode text, true)
  if newline && open_ then data ++ [10] else data

end DualShell.Format
