import DualShell.File.Tree
import DualShell.Source.Json
import DualShell.Text.Quoted
import DualShell.Value.Basic

/-!
# Where modules come from

A spec names a module by segments between colons or slashes; it means a path below the root of its source. A source is a
directory of files or a table in memory. It gives each path a key, which is what modules are remembered by, and each key
a chunk.
-/

namespace DualShell

/-- Why a module cannot be had. -/
inductive ModuleError
  | invalidSpec (spec : String)
  | notFound (path : String)
  | unreadable (path : String) (fault : ReadFault)
  /-- The text at a key is not a chunk. -/
  | unparsable (key : String)
  deriving DecidableEq, Repr

/-- The wording of a failure. -/
def ModuleError.message : ModuleError → String
  | .invalidSpec spec => s!"invalid module spec {Quoted.double spec}"
  | .notFound path => s!"module not found: {path}"
  | .unreadable path fault => s!"reading {path}: {fault.message}"
  | .unparsable key => s!"parsing {key}: not a chunk"

/-- The cause of a failure that a program sees. -/
def ModuleError.cause (e : ModuleError) : Cause :=
  .module e.message

namespace ModuleSpec

/-- Whether a character separates segments. -/
def isSeparator (c : Char) : Bool :=
  c == ':' || c == '/'

/-- The texts between separators. -/
def split : List Char → List (List Char)
  | [] => [[]]
  | c :: cs =>
    if isSeparator c then [] :: split cs
    else
      match split cs with
      | [] => [[c]]
      | s :: ss => (c :: s) :: ss

/-- The segments of a spec. -/
def segments (spec : String) : List String :=
  (split spec.toList).map String.ofList

/-- Whether a segment leads down. -/
def isDown (segment : String) : Bool :=
  !(segment == "" || segment == "." || segment == "..")

/-- The path of a spec below the root: its segments, the last with the extension. -/
def path (spec extension : String) : Except ModuleError String :=
  if (segments spec).all isDown then .ok ("/".intercalate (segments spec) ++ "." ++ extension)
  else .error (.invalidSpec spec)

end ModuleSpec

/-- A source of modules. -/
inductive ModuleSource
  /-- Files below a directory. -/
  | directory (root : String)
  /-- Chunks by path. -/
  | table (chunks : List (String × Source.Chunk))

namespace ModuleSource

/-- The key of a path. Paths that mean the same module have the same key. -/
def resolve (source : ModuleSource) (files : FileTree) (path : String) : Except ModuleError String :=
  match source with
  | .directory root =>
    let path := FilePath.join root path
    match files.lookup path with
    | .ok (p, _) => .ok (FilePath.absolute p)
    | .error .noEntry => .error (.notFound path)
    | .error e => .error (.unreadable path (.os e))
  | .table chunks => if (Named.get? chunks path).isSome then .ok path else .error (.notFound path)

/-- The chunk of a key. -/
def fetch (source : ModuleSource) (files : FileTree) (key : String) : Except ModuleError Source.Chunk :=
  match source with
  | .directory _ => do
    let text ← (files.readText key).mapError (.unreadable key)
    match Source.Chunk.ofText? text with
    | some chunk => return chunk
    | none => throw (.unparsable key)
  | .table chunks =>
    match Named.get? chunks key with
    | some chunk => .ok chunk
    | none => .error (.notFound key)

end ModuleSource

end DualShell
