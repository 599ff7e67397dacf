import DualShell.Named
import DualShell.Source.Basic

/-!
# Scripts of the system's shell

The small scripts that programs of the system are written in: rows of commands one after another, each row possibly on
condition of the one before it. A script is read to words first; parameters in words are looked up when a command runs.
Scripts have no loops, no functions and no substitution of commands.
-/

namespace DualShell.Script

/-- What stands in for a parameter that is not set, and whether it stands in for an empty one too. -/
structure Fallback where
  text : String
  ifEmpty : Bool
  deriving DecidableEq, Repr

/-- A parameter as written. -/
structure Parameter where
  name : String
  fallback : Option Fallback
  deriving DecidableEq, Repr

/-- A piece of a word. What stands in quotes is never split. -/
inductive Piece
  | text (s : String)
  | parameter (p : Parameter) (quoted : Bool)
  deriving DecidableEq, Repr

/-- A word as written. -/
abbrev Word := List Piece

/-- What a descriptor of a command is connected to. -/
inductive Target
  | descriptor (fd : Nat)
  | path (w : Word)
  deriving DecidableEq, Repr

/-- A redirection. -/
structure Redirect where
  fd : Nat
  mode : RedirMode
  target : Target
  deriving DecidableEq, Repr

/-- When a row of commands runs. -/
inductive Condition
  | always
  | afterSuccess
  | afterFailure
  deriving DecidableEq, Repr

/-- A command. -/
structure Command where
  line : Nat
  words : List Word
  redirects : List Redirect
  deriving DecidableEq, Repr

/-- Whether there is nothing to a command. -/
def Command.isEmpty (c : Command) : Bool :=
  c.words.isEmpty && c.redirects.isEmpty

/-- A row of commands: each reads what the one before it writes. -/
structure Row where
  condition : Condition
  commands : List Command
  deriving DecidableEq, Repr

/-- Why a script cannot be read. -/
inductive Fault
  | openQuote
  | unexpected (text : String)
  deriving DecidableEq, Repr

/-- The wording of a fault. -/
def Fault.message : Fault → String
  | .openQuote => "Syntax error: Unterminated quoted string"
  | .unexpected text => s!"Syntax error: {text} unexpected"

/-- A token of a script. -/
inductive Token
  | word (w : Word)
  | redirect (fd : Nat) (mode : RedirMode)
  | duplicate (fd source : Nat)
  /-- The end of a row, and when the next one runs. -/
  | separator (next : Condition) (text : String)
  | pipe
  | newline
  deriving DecidableEq, Repr

/-- Whether a character can be part of a name. -/
def isNameChar (c : Char) : Bool :=
  c.isAlphanum || c == '_'

/-- Whether a character is a parameter of its own. -/
def isSpecial (c : Char) : Bool :=
  "@*#?$!-".toList.contains c

/-- Whether a text is the name of a parameter. -/
def isParameterName (cs : List Char) : Bool :=
  match cs with
  | [] => false
  | [c] => isSpecial c || isNameChar c
  | c :: rest => if c.isDigit then rest.all Char.isDigit else isNameChar c && rest.all isNameChar

/-- What stands between braces: a name, and what may stand in for it. -/
def braced? (cs : List Char) : Option Parameter :=
  let name := cs.takeWhile isNameChar
  let name := if name.isEmpty then cs.take 1 else name
  if !isParameterName name then none
  else
    match cs.drop name.length with
    | [] => some ⟨String.ofList name, none⟩
    | '-' :: text => some ⟨String.ofList name, some ⟨String.ofList text, false⟩⟩
    | ':' :: '-' :: text => some ⟨String.ofList name, some ⟨String.ofList text, true⟩⟩
    | _ => none

/-- A parameter behind its dollar sign, and what follows it. -/
def parameter? : List Char → Option (Parameter × List Char)
  | '{' :: cs =>
    let inside := cs.takeWhile (· != '}')
    match braced? inside, cs.drop inside.length with
    | some p, _ :: rest => some (p, rest)
    | _, _ => none
  | c :: cs =>
    if isSpecial c || c.isDigit then some (⟨c.toString, none⟩, cs)
    else if isNameChar c then
      let name := (c :: cs).takeWhile isNameChar
      some (⟨String.ofList name, none⟩, (c :: cs).drop name.length)
    else none
  | [] => none

/-- The pieces inside double quotes up to the closing one, and what follows it. -/
def quoted : Nat → Word → List Char → Option (Word × List Char)
  | 0, _, _ => none
  | _, _, [] => none
  | _ + 1, w, '"' :: cs => some (w, cs)
  | fuel + 1, w, '\\' :: c :: cs =>
    if "\"\\$\x60".toList.contains c then quoted fuel (w ++ [.text c.toString]) cs
    else quoted fuel (w ++ [.text ("\\" ++ c.toString)]) cs
  | fuel + 1, w, '$' :: cs =>
    match parameter? cs with
    | some (p, rest) => quoted fuel (w ++ [.parameter p true]) rest
    | none => quoted fuel (w ++ [.text "$"]) cs
  | fuel + 1, w, c :: cs => quoted fuel (w ++ [.text c.toString]) cs

/-- Whether a character ends a word. -/
def endsWord (c : Char) : Bool :=
  " \t\n;&|<>()".toList.contains c

/-- A word, and what follows it. -/
def word : Nat → Word → List Char → Except Fault (Word × List Char)
  | 0, w, cs => .ok (w, cs)
  | _, w, [] => .ok (w, [])
  | fuel + 1, w, '\'' :: cs =>
    let inside := cs.takeWhile (· != '\'')
    match cs.drop inside.length with
    | _ :: rest => word fuel (w ++ [.text (String.ofList inside)]) rest
    | [] => .error .openQuote
  | fuel + 1, w, '"' :: cs =>
    match quoted (cs.length + 1) (w ++ [.text ""]) cs with
    | some (w, rest) => word fuel w rest
    | none => .error .openQuote
  | fuel + 1, w, '\\' :: c :: cs => word fuel (w ++ [.text c.toString]) cs
  | fuel + 1, w, '$' :: cs =>
    match parameter? cs with
    | some (p, rest) => word fuel (w ++ [.parameter p false]) rest
    | none => word fuel (w ++ [.text "$"]) cs
  | fuel + 1, w, c :: cs => if endsWord c then .ok (w, c :: cs) else word fuel (w ++ [.text c.toString]) cs

/-- A redirection of a descriptor behind its sign. -/
def redirection (fd : Nat) (mode : RedirMode) (cs : List Char) : Token × List Char :=
  match cs with
  | '&' :: c :: rest => if c.isDigit then (.duplicate fd (c.toNat - '0'.toNat), rest) else (.redirect fd mode, cs)
  | cs => (.redirect fd mode, cs)

/-- The tokens of a script. -/
def tokens : Nat → List Char → Except Fault (List Token)
  | 0, _ => .ok []
  | _, [] => .ok []
  | fuel + 1, '\n' :: cs => do return .newline :: (← tokens fuel cs)
  | fuel + 1, ' ' :: cs => tokens fuel cs
  | fuel + 1, '\t' :: cs => tokens fuel cs
  | fuel + 1, '#' :: cs => tokens fuel (cs.dropWhile (· != '\n'))
  | _ + 1, ';' :: ';' :: _ => .error (.unexpected "\";;\"")
  | fuel + 1, ';' :: cs => do return .separator .always "\";\"" :: (← tokens fuel cs)
  | fuel + 1, '&' :: '&' :: cs => do return .separator .afterSuccess "\"&&\"" :: (← tokens fuel cs)
  | fuel + 1, '|' :: '|' :: cs => do return .separator .afterFailure "\"||\"" :: (← tokens fuel cs)
  | _ + 1, '&' :: _ => .error (.unexpected "\"&\"")
  | fuel + 1, '|' :: cs => do return .pipe :: (← tokens fuel cs)
  | _ + 1, '(' :: _ => .error (.unexpected "\"(\"")
  | _ + 1, ')' :: _ => .error (.unexpected "\")\"")
  | fuel + 1, '>' :: '>' :: cs => do
    let (t, rest) := redirection 1 .append cs
    return t :: (← tokens fuel rest)
  | fuel + 1, '>' :: cs => do
    let (t, rest) := redirection 1 .write cs
    return t :: (← tokens fuel rest)
  | fuel + 1, '<' :: cs => do
    let (t, rest) := redirection 0 .read cs
    return t :: (← tokens fuel rest)
  | fuel + 1, c :: '>' :: cs =>
    if c.isDigit then do
      let (t, rest) := redirection (c.toNat - '0'.toNat) .write cs
      return t :: (← tokens fuel rest)
    else do
      let (w, rest) ← word (cs.length + 2) [] (c :: '>' :: cs)
      return .word w :: (← tokens fuel rest)
  | fuel + 1, c :: cs => do
    let (w, rest) ← word (cs.length + 1) [] (c :: cs)
    return .word w :: (← tokens fuel rest)

/-- The row that has been read so far; a row without commands is none. -/
def Row.close (row : Row) (c : Command) : List Row :=
  let commands := if c.isEmpty then row.commands else row.commands ++ [c]
  if commands.isEmpty then [] else [⟨row.condition, commands⟩]

/-- The rows of tokens, given the row and the command at hand. -/
def rows (row : Row) (c : Command) : List Token → Except Fault (List Row)
  | [] => .ok (row.close c)
  | .word w :: ts => rows row { c with words := c.words ++ [w] } ts
  | .duplicate fd source :: ts => rows row { c with redirects := c.redirects ++ [⟨fd, .write, .descriptor source⟩] } ts
  | .redirect fd mode :: .word w :: ts => rows row { c with redirects := c.redirects ++ [⟨fd, mode, .path w⟩] } ts
  | .redirect _ _ :: _ => .error (.unexpected "redirection")
  | .pipe :: ts =>
    if c.isEmpty then .error (.unexpected "\"|\"")
    else rows { row with commands := row.commands ++ [c] } ⟨c.line, [], []⟩ ts
  | .separator next text :: ts =>
    if c.isEmpty then .error (.unexpected text)
    else do return row.close c ++ (← rows ⟨next, []⟩ ⟨c.line, [], []⟩ ts)
  | .newline :: ts =>
    if c.isEmpty then rows row { c with line := c.line + 1 } ts
    else do return row.close c ++ (← rows ⟨.always, []⟩ ⟨c.line + 1, [], []⟩ ts)

/-- Read a script. -/
def read (text : String) : Except Fault (List Row) := do
  rows ⟨.always, []⟩ ⟨1, [], []⟩ (← tokens (text.length + 1) text.toList)

/-- What the parameters of a running script stand for. -/
structure Parameters where
  /-- The name it runs under. -/
  name : String
  args : List String
  vars : List (String × String)
  /-- The variables that programs see. -/
  exported : List String
  status : Nat

/-- The number by which a script knows itself. -/
def selfId : String := "2"

/-- The value of a parameter, if it is set. -/
def Parameters.get? (p : Parameters) (name : String) : Option String :=
  match name with
  | "@" => if p.args.isEmpty then none else some (" ".intercalate p.args)
  | "*" => if p.args.isEmpty then none else some (" ".intercalate p.args)
  | "#" => some (toString p.args.length)
  | "?" => some (toString p.status)
  | "$" => some selfId
  | "0" => some p.name
  | name =>
    match name.toNat? with
    | some n => p.args[n - 1]?
    | none => Named.get? p.vars name

/-- What is written for a parameter; one that is not set is empty. -/
def Parameters.get (p : Parameters) (q : Parameter) : String :=
  match p.get? q.name, q.fallback with
  | some value, some f => if value.isEmpty && f.ifEmpty then f.text else value
  | some value, none => value
  | none, some f => f.text
  | none, none => ""

/-- Set a variable. -/
def Parameters.set (p : Parameters) (name value : String) : Parameters :=
  { p with vars := Named.insert name value p.vars }

/-- Let programs see a variable. -/
def Parameters.export_ (p : Parameters) (name : String) : Parameters :=
  { p with exported := name :: p.exported }

/-- Forget a variable. -/
def Parameters.unset (p : Parameters) (name : String) : Parameters :=
  { p with vars := Named.erase p.vars name, exported := p.exported.filter (· != name) }

/-- The variables that programs see. -/
def Parameters.env (p : Parameters) : List (String × String) :=
  p.vars.filter fun v => p.exported.contains v.1

/-- Words that are being put together: those that are finished, and the one at hand if it has begun. -/
structure Fields where
  done : List String
  current : Option String

namespace Fields

/-- Nothing yet. -/
def start : Fields := ⟨[], none⟩

/-- Add to the word at hand. -/
def add (f : Fields) (s : String) : Fields :=
  { f with current := some (f.current.getD "" ++ s) }

/-- Finish the word at hand. -/
def cut (f : Fields) : Fields :=
  ⟨f.done ++ f.current.toList, none⟩

/-- Add words of their own; the first continues the word at hand. -/
def addEach (f : Fields) : List String → Fields
  | [] => f
  | [s] => f.add s
  | s :: ss => addEach (f.add s).cut ss

/-- Add a text that is split at blanks. -/
def addSplit (f : Fields) (s : String) : Fields :=
  s.toList.foldl (fun f c => if " \t\n".toList.contains c then f.cut else f.add c.toString) f

/-- All words. -/
def all (f : Fields) : List String :=
  f.cut.done

end Fields

/-- The words that a word stands for. -/
def expand (p : Parameters) (w : Word) : List String :=
  (w.foldl (fun (f : Fields) piece =>
    match piece with
    | .text s => f.add s
    | .parameter ⟨"@", none⟩ true => f.addEach p.args
    | .parameter q true => f.add (p.get q)
    | .parameter q false => f.addSplit (p.get q)) .start).all

end DualShell.Script
