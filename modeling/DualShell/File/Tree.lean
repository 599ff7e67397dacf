import DualShell.Named
import DualShell.Text.Utf8

/-!
# Files

The files a program can see: a table from paths to files and directories. A path is a text; to look it up is to walk its
components from the root or from the working directory, through directories only. Programs of the system are files with
a content of their own that only running them shows.
-/

namespace DualShell

/-- The programs of the system. -/
inductive Tool
  | sh
  | true_
  | false_
  | cat
  | printf
  | echo
  deriving DecidableEq, Repr

/-- What is at a path. -/
inductive FileNode
  | file (content : Bytes) (mode : Nat)
  | directory
  | tool (t : Tool)
  deriving DecidableEq, Repr

/-- Why an operation on files fails. -/
inductive OsError
  | noEntry
  | execFormat
  | permissionDenied
  | notDirectory
  | isDirectory
  | nameTooLong
  | nulInPath
  deriving DecidableEq, Repr

/-- The system's words for a failure. -/
def OsError.reason : OsError → String
  | .noEntry => "No such file or directory"
  | .execFormat => "Exec format error"
  | .permissionDenied => "Permission denied"
  | .notDirectory => "Not a directory"
  | .isDirectory => "Is a directory"
  | .nameTooLong => "File name too long"
  | .nulInPath => "file name contained an unexpected NUL byte"

/-- The system's number of a failure; a path that cannot be handed to the system has none. -/
def OsError.number? : OsError → Option Nat
  | .noEntry => some 2
  | .execFormat => some 8
  | .permissionDenied => some 13
  | .notDirectory => some 20
  | .isDirectory => some 21
  | .nameTooLong => some 36
  | .nulInPath => none

/-- The wording of a failure. -/
def OsError.message (e : OsError) : String :=
  match e.number? with
  | some n => s!"{e.reason} (os error {n})"
  | none => e.reason

/-- Why a file cannot be read as text. -/
inductive ReadFault
  | os (e : OsError)
  /-- Its bytes are not UTF-8. -/
  | notText
  deriving DecidableEq, Repr

/-- The wording of a fault. -/
def ReadFault.message : ReadFault → String
  | .os e => e.message
  | .notText => "stream did not contain valid UTF-8"

/-- A place in the tree: the names from the root down. -/
abbrev FilePath := List String

namespace FilePath

/-- The components of a path as typed. -/
def components (path : String) : List String :=
  path.splitOn "/"

/-- Whether a path starts at the root. -/
def isAbsolute (path : String) : Bool :=
  path.toList.head? == some '/'

/-- A place as an absolute path. -/
def absolute (p : FilePath) : String :=
  if p.isEmpty then "/" else String.join (p.map ("/" ++ ·))

/-- One path below another; an absolute one stands for itself. -/
def join (base path : String) : String :=
  if isAbsolute path || base.isEmpty then path
  else if base.toList.getLast? == some '/' then base ++ path
  else base ++ "/" ++ path

end FilePath

/-- All files, and where relative paths start. -/
structure FileTree where
  entries : List (FilePath × FileNode)
  cwd : FilePath
  deriving Repr

namespace FileTree

/-- What is at a place. The root is always a directory. -/
def node? (t : FileTree) (p : FilePath) : Option FileNode :=
  if p.isEmpty then some .directory else (t.entries.find? (·.1 == p)).map (·.2)

/-- Put something at a place. -/
def put (t : FileTree) (p : FilePath) (n : FileNode) : FileTree :=
  { t with entries := t.entries.filter (·.1 != p) ++ [(p, n)] }

/-- Put something at a place, and directories where there is nothing above it. -/
def install (t : FileTree) (p : FilePath) (n : FileNode) : FileTree :=
  let parents := (List.range p.length).map fun k => p.take k
  let t := parents.foldl (fun t q => if (t.node? q).isSome then t else t.put q .directory) t
  t.put p n

/-- The names in a directory. -/
def children (t : FileTree) (p : FilePath) : List String :=
  t.entries.filterMap fun e => if e.1.length == p.length + 1 && e.1.take p.length == p then e.1.getLast? else none

/-- Where a path leads. -/
inductive Location
  | found (p : FilePath) (n : FileNode)
  /-- Nothing has the last name of the path, but its directory is there. -/
  | missing (p : FilePath) (asDirectory : Bool)
  deriving Repr

/-- Walk the components of a path from a place that holds `here`. -/
def walk (t : FileTree) (p : FilePath) (here : FileNode) : List String → Except OsError Location
  | [] => .ok (.found p here)
  | c :: cs =>
    match here with
    | .directory =>
      if c == "" || c == "." then walk t p here cs
      else if c == ".." then walk t p.dropLast .directory cs
      else if 255 < c.utf8ByteSize then .error .nameTooLong
      else
        match t.node? (p ++ [c]) with
        | some n => walk t (p ++ [c]) n cs
        | none => if cs.all (· == "") then .ok (.missing (p ++ [c]) (!cs.isEmpty)) else .error .noEntry
    | _ => .error .notDirectory

/-- Look a path up. -/
def locate (t : FileTree) (path : String) : Except OsError Location :=
  if path.isEmpty then .error .noEntry
  else if path.toList.contains '\x00' then .error .nulInPath
  else walk t (if FilePath.isAbsolute path then [] else t.cwd) .directory (FilePath.components path)

/-- What is at a path. -/
def lookup (t : FileTree) (path : String) : Except OsError (FilePath × FileNode) := do
  match ← t.locate path with
  | .found p n => return (p, n)
  | .missing _ _ => throw .noEntry

/-- Whether there is something at a path. -/
def holds (t : FileTree) (path : String) : Bool :=
  (t.lookup path).isOk

/-- Whether a path leads to a directory. -/
def isDirectory (t : FileTree) (path : String) : Bool :=
  match t.lookup path with
  | .ok (_, .directory) => true
  | _ => false

/-- The bytes of what is at a place. -/
def contentAt (t : FileTree) (p : FilePath) : Except OsError Bytes :=
  match t.node? p with
  | some (.file content _) => .ok content
  | some .directory => .error .isDirectory
  | some (.tool _) => .ok []
  | none => .error .noEntry

/-- The bytes of a file. -/
def read (t : FileTree) (path : String) : Except OsError Bytes := do
  let (p, _) ← t.lookup path
  t.contentAt p

/-- The text of a file. -/
def readText (t : FileTree) (path : String) : Except ReadFault String := do
  let content ← (t.read path).mapError .os
  (Utf8.decode content).mapError fun _ => .notText

/-- Write bytes into a file from an offset on; a gap before them is filled with zeros. -/
def writeAt (t : FileTree) (p : FilePath) (offset : Nat) (data : Bytes) : FileTree :=
  match t.node? p with
  | some (.file content mode) =>
    let gap := List.replicate (offset - content.length) 0
    t.put p (.file (content.take offset ++ gap ++ data ++ content.drop (offset + data.length)) mode)
  | _ => t

/-- The length of a file. -/
def length (t : FileTree) (p : FilePath) : Nat :=
  match t.contentAt p with
  | .ok content => content.length
  | .error _ => 0

/-- The permissions of a file that was made by writing to it. -/
def defaultMode : Nat := 0o644

/-- The place of a file to write to; a missing one is made. -/
def openForWriting (t : FileTree) (path : String) (truncate : Bool) : Except OsError (FilePath × FileTree) := do
  match ← t.locate path with
  | .found p (.file _ mode) =>
    if truncate then return (p, t.put p (.file [] mode)) else return (p, t)
  | .found _ .directory => throw .isDirectory
  | .found p (.tool _) => return (p, t)
  | .missing p false => return (p, t.put p (.file [] defaultMode))
  | .missing _ true => throw .isDirectory

end FileTree

end DualShell
