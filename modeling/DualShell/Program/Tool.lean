import DualShell.Config.Paths
import DualShell.Eval.Stream
import DualShell.Program.Format
import DualShell.Program.Script

/-!
# Programs of the system

What the programs do that every system has: they see their arguments, the environment and three streams, and end with a
status or by a signal. The system's shell runs its scripts command by command and may start other programs.
-/

namespace DualShell

open Eval

/-- What a program reads and writes. A missing stream reads as empty and takes anything. -/
structure Stdio where
  input : Option Inlet
  output : Option Outlet
  errors : Option Outlet

namespace Stdio

/-- The stream that a descriptor writes to. -/
def outlet (s : Stdio) (fd : Nat) : Option Outlet :=
  if fd == 1 then s.output else if fd == 2 then s.errors else none

/-- Let a descriptor write to another stream. -/
def withOutlet (s : Stdio) (fd : Nat) (o : Option Outlet) : Stdio :=
  if fd == 1 then { s with output := o } else if fd == 2 then { s with errors := o } else s

end Stdio

/-- How a program ended. -/
inductive Exit
  | status (n : Nat)
  | signal (n : Nat)
  deriving DecidableEq, Repr

/-- A program that runs: its name, its arguments and its surroundings. -/
structure Invocation where
  name : String
  args : List String
  env : Environment
  stdio : Stdio
  kernel : KernelId
  /-- How often a loop may go round. -/
  bound : Nat

namespace Invocation

/-- Write to the output. -/
def write (p : Invocation) (data : Bytes) : Eval Unit :=
  match p.stdio.output with
  | some o => o.writeAll p.bound data
  | none => pure ()

/-- Write a line to the error stream. -/
def complain (p : Invocation) (line : String) : Eval Unit :=
  match p.stdio.errors with
  | some o => o.writeAll p.bound (Utf8.encode (line ++ "\n"))
  | none => pure ()

/-- Write lines to the error stream. -/
def complainAll (p : Invocation) : List String → Eval Unit
  | [] => pure ()
  | line :: lines => do
    p.complain line
    complainAll p lines

/-- Write words, as options before them say. -/
def echo (p : Invocation) (escapes newline : Bool) : List String → Eval Exit
  | [] => finish []
  | arg :: args =>
    if arg == "-n" then echo p escapes false args
    else if arg == "-e" then echo p true newline args
    else if arg == "-E" then echo p false newline args
    else finish (arg :: args)
where
  /-- Write the words. -/
  finish (words : List String) : Eval Exit := do
    p.write (Format.echo escapes newline words)
    return .status 0

/-- Write the words of a script's command: escapes always count. -/
def echoInScript (p : Invocation) : List String → Eval Exit
  | "-n" :: args => do
    p.write (Format.echo true false args)
    return .status 0
  | args => do
    p.write (Format.echo true true args)
    return .status 0

/-- Write arguments through a format, which two dashes may come before. -/
def printf (p : Invocation) (args : List String) : Eval Exit :=
  match if args.head? == some "--" then args.tail else args with
  | [] => do
    p.complainAll [s!"{p.name}: missing operand", s!"Try '{p.name} --help' for more information."]
    return .status 1
  | template :: args => do
    let written := Format.format template args
    p.write written.out
    p.complainAll (written.complaints.map fun c => s!"{p.name}: {c.message}")
    return .status (if written.complaints.all isWarning then 0 else 1)
where
  /-- Whether a complaint leaves the status alone. -/
  isWarning : Format.Complaint → Bool
    | .excess _ => true
    | _ => false

/-- Write the arguments of a script's command through a format. -/
def printfInScript (p : Invocation) (label : String) (args : List String) : Eval Exit :=
  match if args.head? == some "--" then args.tail else args with
  | [] => do
    p.complain s!"{label}printf: usage: printf format [arg ...]"
    return .status 2
  | template :: args => do
    let written := Format.format template args
    p.write written.out
    let complaints := written.complaints.filterMap Format.Complaint.scriptMessage?
    p.complainAll (complaints.map fun c => s!"{label}printf: {c}")
    return .status (if complaints.isEmpty then 0 else if written.open_ then 1 else 2)

/-- Hand the input on as it comes. -/
def copyInput (p : Invocation) (inlet : Inlet) : (rounds : Nat) → Eval Unit
  | 0 => exhausted
  | rounds + 1 => do
    let data ← inlet.readSome fetchSize p.bound
    if data.isEmpty then pure ()
    else do
      p.write data
      copyInput p inlet rounds

/-- Write files one after another; a dash stands for the input. Whether all could be read. -/
def concatenate (p : Invocation) : List String → Eval Bool
  | [] => pure true
  | "-" :: paths => do
    match p.stdio.input with
    | some inlet => p.copyInput inlet p.bound
    | none => pure ()
    concatenate p paths
  | path :: paths => do
    match ← ask (.readFile path) with
    | .ok data => do
      p.write data
      concatenate p paths
    | .error e => do
      p.complain s!"{p.name}: {path}: {e.reason}"
      let _ ← concatenate p paths
      return false

/-- Write files, or the input if none is given. -/
def cat (p : Invocation) (paths : List String) : Eval Exit := do
  if ← p.concatenate (if paths.isEmpty then ["-"] else paths) then return .status 0 else return .status 1

/-- The bytes of a line of the input, read one by one so that the rest stays there, and whether a newline ended it. -/
def readLine (p : Invocation) (inlet : Inlet) (line : Bytes) : (rounds : Nat) → Eval (Bytes × Bool)
  | 0 => exhausted
  | rounds + 1 => do
    match ← inlet.readSome 1 p.bound with
    | [] => return (line.reverse, false)
    | b :: _ => if b == 10 then return (line.reverse, true) else readLine p inlet (b :: line) rounds

end Invocation

/-- The number of a signal. -/
def signalNumber? (name : String) : Option Nat :=
  match name with
  | "HUP" => some 1
  | "INT" => some 2
  | "QUIT" => some 3
  | "ABRT" => some 6
  | "KILL" => some 9
  | "USR1" => some 10
  | "SEGV" => some 11
  | "USR2" => some 12
  | "PIPE" => some 13
  | "ALRM" => some 14
  | "TERM" => some 15
  | name => name.toNat?

namespace Script

/-- Where a running script stands. -/
inductive Progress
  | going (p : Parameters)
  | over (e : Exit)

/-- Words handed to variables: one each, and the rest to the last. -/
def assignWords (p : Parameters) : List String → List String → Parameters
  | [], _ => p
  | [name], words => p.set name (" ".intercalate words)
  | name :: names, words => assignWords (p.set name (words.headD "")) names words.tail

/-- A line of the input for variables. -/
def readVariables (proc : Invocation) (p : Parameters) (names : List String) : Eval Parameters :=
  match proc.stdio.input with
  | none => pure { assignWords p names [] with status := 1 }
  | some inlet => do
    let (line, ended) ← proc.readLine inlet [] proc.bound
    let words := (Fields.start.addSplit (Utf8.decodeLenient line)).all
    return { assignWords p names words with status := if ended then 0 else 1 }

/-- Send a signal, by default the one that asks to end. A script can only reach itself. -/
def signal (proc : Invocation) (p : Parameters) (line : Nat) (args : List String) : Eval Progress := do
  let (signal, targets) :=
    match args with
    | "-s" :: name :: rest => (signalNumber? name, rest)
    | arg :: rest =>
      match arg.toList with
      | '-' :: name => (signalNumber? (String.ofList name), rest)
      | _ => (some 15, args)
    | [] => (some 15, [])
  match signal with
  | some 0 => return .going { p with status := 0 }
  | some n =>
    if targets == [selfId] then return .over (.signal n)
    else do
      proc.complain s!"{p.name}: {line}: kill: No such process"
      return .going { p with status := 1 }
  | none => do
    proc.complain s!"{p.name}: {line}: kill: Illegal option"
    return .going { p with status := 2 }

/-- Why a file of a redirection cannot be opened, in the words of a script. -/
def openFault (path : String) (mode : RedirMode) (e : OsError) : String :=
  let (verb, missing) := if mode == .read then ("open", "No such file") else ("create", "Directory nonexistent")
  let reason := if e == .noEntry then missing else e.reason
  s!"cannot {verb} {path}: {reason}"

/-- Connect the streams of a command; what cannot be connected is reported. -/
def connect (proc : Invocation) (p : Parameters) (line : Nat) : List Redirect → Stdio → Eval (Option Stdio)
  | [], s => pure (some s)
  | r :: rs, s =>
    match r.target with
    | .descriptor source =>
      if source < 3 then connect proc p line rs (s.withOutlet r.fd (s.outlet source))
      else do
        proc.complain s!"{p.name}: {line}: {source}: Bad file descriptor"
        return none
    | .path w => do
      let path := " ".intercalate (expand p w)
      if path == "/dev/null" then connect proc p line rs (set r.fd none none s)
      else
        match ← ask (.openFile path r.mode) with
        | .ok connection => connect proc p line rs (set r.fd connection.input connection.output s)
        | .error e => do
          proc.complain s!"{p.name}: {line}: {openFault path r.mode e}"
          return none
where
  /-- Connect one stream. -/
  set (fd : Nat) (input : Option Inlet) (output : Option Outlet) (s : Stdio) : Stdio :=
    if fd == 0 then { s with input } else s.withOutlet fd output

/-- The variable that a word sets, and the word for its value. -/
def assignment? (w : Word) : Option (String × Word) :=
  let head := w.takeWhile fun piece =>
    match piece with
    | .text s => s != "="
    | .parameter .. => false
  let name := String.join (head.map fun piece =>
    match piece with
    | .text s => s
    | .parameter .. => "")
  match w.drop head.length with
  | .text "=" :: value =>
    if !name.isEmpty && name.toList.all isNameChar && !(name.toList.headD '0').isDigit then some (name, value) else none
  | _ => none

/-- Start another program. -/
def start (launch : Tool → Invocation → Eval Exit) (proc : Invocation) (p : Parameters) (label : String) (name : String)
    (args : List String) : Eval Exit := do
  match ← ask (.program proc.kernel name) with
  | .ok l =>
    launch l.tool
      { proc with name := if l.front.isEmpty then name else l.name, args := l.front ++ args, env := p.env }
  | .error (.commandNotFound _) => do
    proc.complain s!"{label}{name}: not found"
    return .status 127
  | .error _ => do
    proc.complain s!"{label}{name}: Permission denied"
    return .status 126

/-- Go on with the status of a command. -/
def Parameters.after (p : Parameters) : Exit → Progress
  | .status n => .going { p with status := n }
  | .signal n => .going { p with status := 128 + n }

/-- Whether two numbers compare as an operator of a condition says. -/
def comparison? (op : String) (a b : Int) : Option Bool :=
  match op with
  | "-eq" => some (a == b)
  | "-ne" => some (a != b)
  | "-lt" => some (a < b)
  | "-le" => some (a ≤ b)
  | "-gt" => some (b < a)
  | "-ge" => some (b ≤ a)
  | _ => none

/-- Whether the words of a condition hold; none if they are no condition. -/
def holds? : List String → Eval (Option Bool)
  | [] => pure (some false)
  | [s] => pure (some (!s.isEmpty))
  | ["!", s] => pure (some s.isEmpty)
  | ["-n", s] => pure (some (!s.isEmpty))
  | ["-z", s] => pure (some s.isEmpty)
  | ["-e", path] => do
    match ← ask (.readFile path) with
    | .error .isDirectory => return some true
    | r => return some r.isOk
  | ["-f", path] => do return some (← ask (.readFile path)).isOk
  | ["-d", path] => do
    match ← ask (.readFile path) with
    | .error .isDirectory => return some true
    | _ => return some false
  | ["-s", path] => do
    match ← ask (.readFile path) with
    | .ok data => return some (!data.isEmpty)
    | .error e => return some (e == .isDirectory)
  | [a, "=", b] => pure (some (a == b))
  | [a, "!=", b] => pure (some (a != b))
  | [a, op, b] =>
    match a.toInt?, b.toInt? with
    | some m, some n => pure (comparison? op m n)
    | _, _ => pure none
  | "!" :: words => do return (← holds? words).map (!·)
  | _ => pure none

/-- The status that a condition answers with. -/
def conditionStatus (words : List String) : Eval Nat := do
  match ← holds? words with
  | some true => return 0
  | some false => return 1
  | none => return 2

/-- Let programs see variables, which may be set along the way. -/
def exportAll (p : Parameters) : List String → Parameters
  | [] => { p with status := 0 }
  | word :: words =>
    let name := String.ofList (word.toList.takeWhile (· != '='))
    match word.toList.drop name.length with
    | [] => exportAll (p.export_ name) words
    | _ :: value => exportAll ((p.set name (String.ofList value)).export_ name) words

/-- Whether a command belongs to the script itself, so that it ends the script when its streams cannot be connected. -/
def isOfScript (name : String) : Bool :=
  [":", "exec", "exit", "export", "shift", "unset"].contains name

/-- Run a command with its streams connected. -/
def runWords (launch : Tool → Invocation → Eval Exit) (proc : Invocation) (p : Parameters) (line : Nat) :
    List String → Eval Progress
  | [] => pure (.going { p with status := 0 })
  | ":" :: _ => pure (.going { p with status := 0 })
  | "true" :: _ => pure (.going { p with status := 0 })
  | "false" :: _ => pure (.going { p with status := 1 })
  | "exit" :: args =>
    match args with
    | [] => pure (.over (.status p.status))
    | arg :: _ =>
      match arg.toNat? with
      | some n => pure (.over (.status (n % 256)))
      | none => do
        proc.complain s!"{p.name}: {line}: exit: Illegal number: {arg}"
        return .over (.status 2)
  | "echo" :: args => do return p.after (← proc.echoInScript args)
  | "printf" :: args => do return p.after (← proc.printfInScript s!"{p.name}: {line}: " args)
  | "read" :: names => do return .going (← readVariables proc p (names.filter (· != "-r")))
  | "kill" :: args => signal proc p line args
  | "test" :: words => do return .going { p with status := ← conditionStatus words }
  | "[" :: words =>
    if words.getLast? == some "]" then do return .going { p with status := ← conditionStatus words.dropLast }
    else do
      proc.complain s!"{p.name}: {line}: [: missing ]"
      return .going { p with status := 2 }
  | ["exec"] => pure (.going { p with status := 0 })
  | "exec" :: name :: args => do return .over (← start launch proc p s!"{p.name}: {line}: exec: " name args)
  | "export" :: words => pure (.going (exportAll p words))
  | "unset" :: names => pure (.going { names.foldl Parameters.unset p with status := 0 })
  | "shift" :: args =>
    let count := (args.head?.bind String.toNat?).getD 1
    if count ≤ p.args.length then pure (.going { p with args := p.args.drop count, status := 0 })
    else do
      proc.complain s!"{p.name}: {line}: shift: can't shift that many"
      return .over (.status 2)
  | "pwd" :: _ => do
    proc.write (Utf8.encode ((← ask .workingDirectory) ++ "\n"))
    return .going { p with status := 0 }
  | name :: args => do return p.after (← start launch proc p s!"{p.name}: {line}: " name args)

/-- The variables that the first words of a command set, and the words behind them. -/
def assignments : List Word → List (String × Word) × List Word
  | [] => ([], [])
  | w :: ws =>
    match assignment? w with
    | some a =>
      let (more, rest) := assignments ws
      (a :: more, rest)
    | none => ([], w :: ws)

/-- Set variables one after another. -/
def assignAll (p : Parameters) (sets : List (String × Word)) : Parameters :=
  sets.foldl (fun p a => p.set a.1 (" ".intercalate (expand p a.2))) p

/-- Run a command. Variables set before other words are for that command alone. The streams that come back are those of
the script: the command `exec` without a program keeps the ones it was given. -/
def runCommand (launch : Tool → Invocation → Eval Exit) (proc : Invocation) (p : Parameters) (c : Command) :
    Eval (Progress × Stdio) := do
  let (sets, ws) := assignments c.words
  let words := ws.flatMap (expand p)
  match ← connect proc p c.line c.redirects proc.stdio with
  | none =>
    let fault := { p with status := 2 }
    return (if (words.head?.map isOfScript).getD false then .over (.status 2) else .going fault, proc.stdio)
  | some stdio =>
    let inner := assignAll p sets
    if ws.isEmpty then return (.going { inner with status := 0 }, proc.stdio)
    else
      let seen := sets.foldl (fun q a => q.export_ a.1) inner
      let kept := if words == ["exec"] then stdio else proc.stdio
      match ← runWords launch { proc with stdio } (if sets.isEmpty then p else seen) c.line words with
      | .going q => return (.going (if sets.isEmpty then q else { p with status := q.status }), kept)
      | .over e => return (.over e, kept)

/-- Whether a command runs after a status. -/
def Condition.allows (c : Condition) (status : Nat) : Bool :=
  match c with
  | .always => true
  | .afterSuccess => status == 0
  | .afterFailure => status != 0

/-- The status that a command leaves behind. -/
def Progress.status : Progress → Nat
  | .going p => p.status
  | .over (.status n) => n
  | .over (.signal n) => 128 + n

/-- Run the commands of a row on their own, each with what the one before it wrote as its input; the status of the last. -/
def runPiped (launch : Tool → Invocation → Eval Exit) (proc : Invocation) (p : Parameters) : List Command → Eval Nat
  | [] => pure p.status
  | [c] => do return (← runCommand launch proc p c).1.status
  | c :: cs => do
    let collector ← ask .openCollector
    let _ ← runCommand launch { proc with stdio := { proc.stdio with output := some (.collector collector) } } p c
    let (data, _) ← ask (.takeCollected collector)
    let channel ← ask (.openInput data [])
    runPiped launch { proc with stdio := { proc.stdio with input := some (.channel channel) } } p cs

/-- Run rows of commands. A command that stands alone may change the script; the others only leave a status. -/
def runRows (launch : Tool → Invocation → Eval Exit) (proc : Invocation) : Parameters → List Row → Eval Exit
  | p, [] => pure (.status p.status)
  | p, row :: rows =>
    if row.condition.allows p.status then
      match row.commands with
      | [c] => do
        match ← runCommand launch proc p c with
        | (.going p, stdio) => runRows launch { proc with stdio } p rows
        | (.over e, _) => pure e
      | cs => do
        let status ← runPiped launch proc p cs
        runRows launch proc { p with status } rows
    else runRows launch proc p rows

/-- Run the text of a script under a name. -/
def run (launch : Tool → Invocation → Eval Exit) (proc : Invocation) (name text : String) (args : List String) : Eval Exit :=
  match read text with
  | .ok rows => runRows launch proc ⟨name, args, proc.env, proc.env.map (·.1), 0⟩ rows
  | .error fault => do
    proc.complain s!"{name}: 1: {fault.message}"
    return .status 2

/-- The system's shell: a script given as an argument, in a file, or as the input. -/
def shell (launch : Tool → Invocation → Eval Exit) (proc : Invocation) : Eval Exit :=
  match proc.args with
  | [] =>
    match proc.stdio.input with
    | some inlet => do run launch proc proc.name (Utf8.decodeLenient (← inlet.readAll proc.bound)) []
    | none => pure (.status 0)
  | ["-c"] => do
    proc.complain s!"{proc.name}: 0: -c requires an argument"
    return .status 2
  | "-c" :: text :: [] => run launch proc proc.name text []
  | "-c" :: text :: name :: args => run launch proc name text args
  | path :: args => do
    match ← ask (.readFile path) with
    | .ok data => run launch proc path (Utf8.decodeLenient data) args
    | .error _ => do
      proc.complain s!"{proc.name}: 0: cannot open {path}: No such file"
      return .status 2

end Script

/-- Run a program of the system. The first argument bounds how deep scripts may start each other. -/
def Tool.run : (depth : Nat) → Tool → Invocation → Eval Exit
  | 0, _, _ => exhausted
  | depth + 1, tool, p =>
    match tool with
    | .sh => Script.shell (Tool.run depth) p
    | .true_ => pure (.status 0)
    | .false_ => pure (.status 1)
    | .cat => p.cat p.args
    | .printf => p.printf p.args
    | .echo => p.echo false true p.args

end DualShell
