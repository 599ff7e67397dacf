import DualShell.Toml.Basic

/-!
# Reading TOML

A reader for configuration files. What is wrong with a text is not reported: it is a document or it is not.
-/

namespace DualShell.Toml

/-- Reading from the characters that are left; the result is none for a text that is no document. -/
abbrev Read := StateT (List Char) Option

/-- The next character, left in place. -/
def peek : Read (Option Char) :=
  fun cs => some (cs.head?, cs)

/-- Step over a text, which has to be there. -/
def expect (text : List Char) : Read Unit :=
  fun cs => if cs.take text.length == text then some ((), cs.drop text.length) else none

/-- Step over a text if it is there. -/
def accept (text : List Char) : Read Bool :=
  fun cs => if cs.take text.length == text then some (true, cs.drop text.length) else some (false, cs)

/-- The longest run of characters of a kind. -/
def run (p : Char → Bool) : Read (List Char) :=
  fun cs => some (cs.takeWhile p, cs.dropWhile p)

/-- The next character. -/
def next : Read Char
  | [] => none
  | c :: cs => some (c, cs)

/-- Blanks inside a line. -/
def blanks : Read Unit := do
  let _ ← run fun c => c == ' ' || c == '\t'

/-- Characters that may stand in a comment. -/
def isPrintable (c : Char) : Bool :=
  c == '\t' || (0x20 ≤ c.toNat && c != '\x7f')

/-- A comment, if one starts here. -/
def comment : Read Unit := do
  if ← accept ['#'] then
    let _ ← run isPrintable

/-- The end of a line, if it is here. -/
def newline : Read Bool := do
  if ← accept ['\n'] then pure true else accept ['\r', '\n']

/-- Blanks, comments and ends of lines. The argument bounds their number. -/
def skip : Nat → Read Unit
  | 0 => pure ()
  | fuel + 1 => do
    blanks
    comment
    if ← newline then skip fuel

/-- Characters of a key without quotes. -/
def isKeyChar (c : Char) : Bool :=
  c.isAlphanum || c == '_' || c == '-'

/-- The value of hexadecimal digits. -/
def hexValue (cs : List Char) : Option Nat :=
  cs.foldl
    (fun n c =>
      match n with
      | none => none
      | some n =>
        if c.isDigit then some (n * 16 + (c.toNat - 48))
        else if 'a' ≤ c && c ≤ 'f' then some (n * 16 + (c.toNat - 87))
        else if 'A' ≤ c && c ≤ 'F' then some (n * 16 + (c.toNat - 55))
        else none)
    (some 0)

/-- A character given by a fixed number of hexadecimal digits. -/
def codePoint (digits : Nat) : Read Char := fun cs =>
  if cs.length < digits then none
  else
    match hexValue (cs.take digits) with
    | some n => if n < 0xD800 || (0xDFFF < n && n < 0x110000) then some (Char.ofNat n, cs.drop digits) else none
    | none => none

/-- The character of an escape, after the backslash. -/
def escaped : Read Char := do
  match ← next with
  | 'b' => pure '\x08'
  | 't' => pure '\t'
  | 'n' => pure '\n'
  | 'f' => pure '\x0c'
  | 'r' => pure '\r'
  | '"' => pure '"'
  | '\\' => pure '\\'
  | 'u' => codePoint 4
  | 'U' => codePoint 8
  | _ => failure

/-- The rest of a string in double quotes; characters so far come latest first. -/
def basicRest : Nat → List Char → Read (List Char)
  | 0, _ => failure
  | fuel + 1, seen => do
    match ← next with
    | '"' => pure seen.reverse
    | '\\' => basicRest fuel ((← escaped) :: seen)
    | c => if isPrintable c then basicRest fuel (c :: seen) else failure

/-- The rest of a string in single quotes. -/
def literalRest : Read (List Char) := do
  let cs ← run fun c => isPrintable c && c != '\''
  expect ['\'']
  pure cs

/-- The quotes that end a text of several lines, of which up to two belong to it; there are at least three of them here. -/
def closing (quote : Char) : Read (List Char) := do
  expect [quote, quote, quote]
  if ← accept [quote] then
    if ← accept [quote] then pure [quote, quote] else pure [quote]
  else pure []

/-- Whether three quotes come next. -/
def atClosing (quote : Char) : Read Bool :=
  fun cs => some (cs.take 3 == [quote, quote, quote], cs)

/-- The rest of a text of several lines in double quotes. -/
def basicLines : Nat → List Char → Read (List Char)
  | 0, _ => failure
  | fuel + 1, seen => do
    if ← atClosing '"' then return seen.reverse ++ (← closing '"')
    if ← newline then basicLines fuel ('\n' :: seen)
    else
      match ← next with
      | '\\' => do
        let cs ← get
        let after := cs.dropWhile fun c => c == ' ' || c == '\t'
        if after.head? == some '\n' || after.take 2 == ['\r', '\n'] then
          set (skipSpace after.length after)
          basicLines fuel seen
        else basicLines fuel ((← escaped) :: seen)
      | c => if isPrintable c then basicLines fuel (c :: seen) else failure
where
  /-- Leave out blanks and ends of lines. -/
  skipSpace : Nat → List Char → List Char
    | 0, cs => cs
    | fuel + 1, ' ' :: cs => skipSpace fuel cs
    | fuel + 1, '\t' :: cs => skipSpace fuel cs
    | fuel + 1, '\n' :: cs => skipSpace fuel cs
    | fuel + 1, '\r' :: '\n' :: cs => skipSpace fuel cs
    | _, cs => cs

/-- The rest of a text of several lines in single quotes. -/
def literalLines : Nat → List Char → Read (List Char)
  | 0, _ => failure
  | fuel + 1, seen => do
    if ← atClosing '\'' then return seen.reverse ++ (← closing '\'')
    if ← newline then literalLines fuel ('\n' :: seen)
    else
      let c ← next
      if isPrintable c then literalLines fuel (c :: seen) else failure

/-- A string, if one starts here. -/
def string? (fuel : Nat) (severalLines : Bool) : Read (Option String) := do
  if severalLines then
    if ← accept ['"', '"', '"'] then
      let _ ← newline
      return some (String.ofList (← basicLines fuel []))
    if ← accept ['\'', '\'', '\''] then
      let _ ← newline
      return some (String.ofList (← literalLines fuel []))
  if ← accept ['"'] then return some (String.ofList (← basicRest fuel []))
  if ← accept ['\''] then return some (String.ofList (← literalRest))
  return none

/-- One part of a key. -/
def keyPart (fuel : Nat) : Read String := do
  match ← string? fuel false with
  | some s => pure s
  | none =>
    let cs ← run isKeyChar
    if cs.isEmpty then failure else pure (String.ofList cs)

/-- A key of parts joined by dots. -/
def key (fuel : Nat) : Nat → Read (List String)
  | 0 => failure
  | parts + 1 => do
    blanks
    let first ← keyPart fuel
    blanks
    if ← accept ['.'] then return first :: (← key fuel parts) else return [first]

/-- Digits with single underscores between them; the digits without the underscores. -/
def grouped (isDigit : Char → Bool) : List Char → Option (List Char)
  | [] => none
  | c :: cs => if isDigit c then (rest cs).map (c :: ·) else none
where
  /-- What may follow a digit. -/
  rest : List Char → Option (List Char)
    | [] => some []
    | '_' :: c :: cs => if isDigit c then (rest cs).map (c :: ·) else none
    | c :: cs => if isDigit c then (rest cs).map (c :: ·) else none

/-- The value of digits in a base. -/
def valueOf (base : Nat) (cs : List Char) : Nat :=
  cs.foldl (fun n c => n * base + (hexValue [c]).getD 0) 0

/-- An integer that fits into 64 bits. -/
def word (i : Int) : Option Item :=
  if -(Int.pow 2 63) ≤ i && i < Int.pow 2 63 then some (.integer i) else none

/-- The digits of a decimal integer without sign; it does not start with an idle zero. -/
def decimal (cs : List Char) : Option (List Char) :=
  match grouped Char.isDigit cs with
  | some ('0' :: _ :: _) => none
  | other => other

/-- A number without sign that is not written in another base. -/
def unsigned (negative : Bool) (cs : List Char) : Option Item :=
  if cs == ['i', 'n', 'f'] || cs == ['n', 'a', 'n'] then some .float
  else
    let isFraction (c : Char) : Bool := c == '.' || c == 'e' || c == 'E'
    let front := cs.takeWhile (!isFraction ·)
    match decimal front, cs.dropWhile (!isFraction ·) with
    | some digits, [] => word (if negative then -(valueOf 10 digits : Int) else valueOf 10 digits)
    | some _, '.' :: after =>
      let isExponent (c : Char) : Bool := c == 'e' || c == 'E'
      match grouped Char.isDigit (after.takeWhile (!isExponent ·)), after.dropWhile (!isExponent ·) with
      | some _, [] => some .float
      | some _, _ :: exponent => powers exponent
      | none, _ => none
    | some _, _ :: exponent => powers exponent
    | none, _ => none
where
  /-- A float whose exponent is given. -/
  powers (exponent : List Char) : Option Item :=
    let digits :=
      match exponent with
      | '+' :: ds => ds
      | '-' :: ds => ds
      | ds => ds
    (grouped Char.isDigit digits).map fun _ => .float

/-- A number. -/
def number? (cs : List Char) : Option Item :=
  match cs with
  | '+' :: rest => unsigned false rest
  | '-' :: rest => unsigned true rest
  | '0' :: 'x' :: rest =>
    (grouped (fun c => (hexValue [c]).isSome) rest).bind fun ds => word (valueOf 16 ds)
  | '0' :: 'o' :: rest => (grouped (fun c => '0' ≤ c && c ≤ '7') rest).bind fun ds => word (valueOf 8 ds)
  | '0' :: 'b' :: rest => (grouped (fun c => c == '0' || c == '1') rest).bind fun ds => word (valueOf 2 ds)
  | _ => unsigned false cs

/-- The value of exactly `n` digits, and what follows them. -/
def fixedDigits (n : Nat) (cs : List Char) : Option (Nat × List Char) :=
  let ds := cs.take n
  if ds.length == n && ds.all Char.isDigit then some (valueOf 10 ds, cs.drop n) else none

/-- The number of days of a month. -/
def daysIn (year month : Nat) : Nat :=
  if month == 2 then (if (year % 4 == 0 && year % 100 != 0) || year % 400 == 0 then 29 else 28)
  else if month == 4 || month == 6 || month == 9 || month == 11 then 30
  else 31

/-- A date, and what follows it. -/
def date? (cs : List Char) : Option (List Char) := do
  let (year, cs) ← fixedDigits 4 cs
  let cs ← dropDash cs
  let (month, cs) ← fixedDigits 2 cs
  let cs ← dropDash cs
  let (day, cs) ← fixedDigits 2 cs
  if 1 ≤ month && month ≤ 12 && 1 ≤ day && day ≤ daysIn year month then some cs else none
where
  /-- What follows a dash. -/
  dropDash : List Char → Option (List Char)
    | '-' :: cs => some cs
    | _ => none

/-- A time, and what follows it. -/
def time? (cs : List Char) : Option (List Char) := do
  let (hour, cs) ← fixedDigits 2 cs
  let cs ← dropColon cs
  let (minute, cs) ← fixedDigits 2 cs
  let cs ← dropColon cs
  let (second, cs) ← fixedDigits 2 cs
  if 23 < hour || 59 < minute || 60 < second then none
  else
    match cs with
    | '.' :: ds =>
      if (ds.takeWhile Char.isDigit).isEmpty then none else some (ds.dropWhile Char.isDigit)
    | cs => some cs
where
  /-- What follows a colon. -/
  dropColon : List Char → Option (List Char)
    | ':' :: cs => some cs
    | _ => none

/-- Whether this is the offset of a time zone, or none. -/
def isOffset : List Char → Bool
  | [] => true
  | ['Z'] => true
  | ['z'] => true
  | sign :: cs =>
    (sign == '+' || sign == '-') &&
      match fixedDigits 2 cs with
      | some (hour, ':' :: cs) =>
        match fixedDigits 2 cs with
        | some (minute, []) => hour ≤ 23 && minute ≤ 59
        | _ => false
      | _ => false

/-- Whether this is a date, a time, or both. -/
def isMoment (cs : List Char) : Bool :=
  match date? cs with
  | some [] => true
  | some (c :: rest) =>
    (c == 'T' || c == 't' || c == ' ') &&
      match time? rest with
      | some zone => isOffset zone
      | none => false
  | none => time? cs == some []

/-- A value written as one word. -/
def word? (cs : List Char) : Option Item :=
  if cs == ['t', 'r', 'u', 'e'] then some (.boolean true)
  else if cs == ['f', 'a', 'l', 's', 'e'] then some (.boolean false)
  else if isMoment cs then some .moment
  else number? cs

/-- A value written as one word; a date and a time may stand apart. -/
def plain : Read Item := do
  let isWordChar (c : Char) : Bool := c.isAlphanum || c == '_' || c == '-' || c == '+' || c == '.' || c == ':'
  let cs ← run isWordChar
  let rest ← get
  match date? cs, rest with
  | some [], ' ' :: after =>
    let time := after.takeWhile isWordChar
    if isMoment (cs ++ ' ' :: time) then
      set (after.dropWhile isWordChar)
      pure .moment
    else pure .moment
  | _, _ =>
    match word? cs with
    | some item => pure item
    | none => failure

/-- How deep values may be nested. -/
def maxDepth : Nat := 80

mutual

/-- A value; `depth` levels of nesting are left. -/
def value (fuel : Nat) : Nat → Read Item
  | 0 => failure
  | depth + 1 => do
    match ← string? fuel true with
    | some s => pure (.string s)
    | none =>
      if ← accept ['['] then return .array (← elements fuel depth fuel)
      else if ← accept ['\x7b'] then do
        blanks
        if ← accept ['\x7d'] then return .inlined []
        else return .inlined (← inlineMembers fuel depth fuel [])
      else plain

/-- The elements of an array, up to its end. -/
def elements (fuel : Nat) : Nat → Nat → Read (List Item)
  | _, 0 => failure
  | 0, _ => failure
  | depth + 1, count + 1 => do
    skip fuel
    if ← accept [']'] then return []
    let first ← value fuel depth
    skip fuel
    if ← accept [','] then return first :: (← elements fuel (depth + 1) count)
    expect [']']
    return [first]

/-- The members of a table written as a value, up to its end. -/
def inlineMembers (fuel : Nat) : Nat → Nat → Members → Read Members
  | _, 0, _ => failure
  | 0, _, _ => failure
  | depth + 1, count + 1, ms => do
    let path ← key fuel fuel
    expect ['=']
    blanks
    let item ← value fuel depth
    blanks
    match path.getLast? with
    | none => failure
    | some last =>
      match bind path.dropLast last item .defined ms with
      | none => failure
      | some ms =>
        if ← accept [','] then inlineMembers fuel (depth + 1) count ms
        else do
          expect ['\x7d']
          return ms

end

/-- The end of a line that says something. -/
def lineEnd : Read Unit := do
  blanks
  comment
  if (← get).isEmpty then pure ()
  else if ← newline then pure ()
  else failure

/-- The lines of a document; `header` names the table they add to. The second argument bounds their number. -/
def lines (fuel : Nat) : Nat → (header : List String) → Members → Read Members
  | 0, _, ms => pure ms
  | count + 1, header, ms => do
    skip fuel
    if (← get).isEmpty then return ms
    if ← accept ['[', '['] then
      let path ← key fuel fuel
      expect [']', ']']
      lineEnd
      match appendTable path ms with
      | none => failure
      | some ms => lines fuel count path ms
    else if ← accept ['['] then
      let path ← key fuel fuel
      expect [']']
      lineEnd
      match openTable path ms with
      | none => failure
      | some ms => lines fuel count path ms
    else
      let path ← key fuel fuel
      expect ['=']
      blanks
      let item ← value fuel maxDepth
      lineEnd
      match path.getLast? with
      | none => failure
      | some last =>
        match assign header path.dropLast last item ms with
        | none => failure
        | some ms => lines fuel count header ms

/-- The top level of a document, if the text is one. -/
def read (text : String) : Option Members := do
  let cs := text.toList
  let cs := if cs.head? == some '\uFEFF' then cs.drop 1 else cs
  let (ms, rest) ← (lines (cs.length + 1) (cs.length + 1) [] []).run cs
  if rest.isEmpty then some ms else none

end DualShell.Toml
