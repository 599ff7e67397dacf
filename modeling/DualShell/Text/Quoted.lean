import DualShell.Text.CharClass

/-!
# Quoted text

Two written forms of a string. The double-quoted form shows every character that has no visible form of its own as an
escape and is used where a message or a syntax tree cites a text. The single-quoted form doubles the quote and is used
where a value is written so that it can be read back; a word of plain characters needs no quotes at all.
-/

namespace DualShell.Quoted

/-- The digits of a number in base sixteen, lower case, without leading zeros. -/
def hex (n : Nat) : String :=
  String.ofList (Nat.toDigits 16 n)

/-- One character inside double quotes. -/
def escape (c : Char) : String :=
  if c == '"' then "\\\""
  else if c == '\\' then "\\\\"
  else if c == '\n' then "\\n"
  else if c == '\r' then "\\r"
  else if c == '\t' then "\\t"
  else if c == '\x00' then "\\0"
  else if CharClass.isJoiningMark c || !CharClass.isVisible c then "\\u\x7b" ++ hex c.toNat ++ "\x7d"
  else c.toString

/-- The double-quoted form. -/
def double (s : String) : String :=
  "\"" ++ String.join (s.toList.map escape) ++ "\""

/-- The characters of a single-quoted text: each quote twice. -/
def doubled (cs : List Char) : List Char :=
  cs.flatMap fun c => if c == '\'' then ['\'', '\''] else [c]

/-- The single-quoted form. -/
def single (s : String) : String :=
  "'" ++ String.ofList (doubled s.toList) ++ "'"

/-- The characters of a word that may stand without quotes. -/
def isPlain (c : Char) : Bool :=
  CharClass.isWordChar c || "-_./:@%+,=~".toList.contains c

/-- Whether a string may stand without quotes: it is not empty and all plain. -/
def isWord (s : String) : Bool :=
  !s.isEmpty && s.toList.all isPlain

/-- The shortest form that can be read back: the word itself, or the single-quoted form. -/
def word (s : String) : String :=
  if isWord s then s else single s

end DualShell.Quoted
