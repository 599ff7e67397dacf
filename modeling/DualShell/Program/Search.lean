import DualShell.File.Tree
import DualShell.Value.Basic

/-!
# Finding programs

How the name of a command leads to a program: a name with a slash is a path, any other is searched for in the
directories of a path variable. A script names the program that runs it in its first line.
-/

namespace DualShell.Program

/-- A bit of the permissions that lets someone run a file. -/
def runnable (mode : Nat) : Bool :=
  mode &&& 0o111 != 0

/-- Whether there is a file at a path that can be run. -/
def isExecutable (files : FileTree) (path : String) : Bool :=
  match files.lookup path with
  | .ok (_, .file _ mode) => runnable mode
  | .ok (_, .tool _) => true
  | _ => false

/-- The first directory of a path variable that has a program of this name, with the name. -/
def search? (files : FileTree) (name pathVariable : String) : Option String :=
  (((pathVariable.splitOn ":").filter fun dir => !dir.isEmpty).map fun dir => FilePath.join dir name).find?
    (isExecutable files)

/-- Blanks in the first line of a script. -/
def isBlankByte (b : UInt8) : Bool :=
  b == 32 || b == 9

/-- The program that a script names in its first line, and the argument it gives to it, if any. -/
def interpreter? (content : Bytes) : Option (String × Option String) :=
  match content with
  | 35 :: 33 :: rest =>
    let line := (rest.takeWhile (· != 10)).dropWhile isBlankByte
    let line := (line.reverse.dropWhile isBlankByte).reverse
    let name := line.takeWhile (!isBlankByte ·)
    let argument := (line.drop name.length).dropWhile isBlankByte
    if name.isEmpty then none
    else some (Utf8.decodeLenient name, if argument.isEmpty then none else some (Utf8.decodeLenient argument))
  | _ => none

/-- A program as it is started: the name it sees itself under, and the arguments that come before the given ones. -/
structure Launch where
  tool : Tool
  name : String
  front : List String
  deriving DecidableEq, Repr

/-- The program that runs a path. The first argument bounds how many scripts may name each other. -/
def start (files : FileTree) : Nat → String → Except OsError Launch
  | 0, _ => .error .execFormat
  | depth + 1, path => do
    match ← files.lookup path with
    | (_, .tool t) => return ⟨t, path, []⟩
    | (_, .directory) => throw .permissionDenied
    | (_, .file content mode) =>
      if !runnable mode then throw .permissionDenied
      match interpreter? content with
      | none => throw .execFormat
      | some (name, argument) =>
        let l ← start files depth name
        return ⟨l.tool, l.name, l.front ++ argument.toList ++ [path]⟩

/-- How many scripts may name each other. -/
def scriptDepth : Nat := 5

/-- The program of a command. -/
def find (files : FileTree) (name pathVariable : String) : Except Cause Launch :=
  let path := if name.toList.contains '/' then some name else search? files name pathVariable
  match path with
  | none => .error (.commandNotFound name)
  | some path =>
    match start files scriptDepth path with
    | .ok launch => .ok launch
    | .error .noEntry => .error (.commandNotFound name)
    | .error e => .error (.io s!"{name}: {e.message}")

end DualShell.Program
