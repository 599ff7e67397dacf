import DualShell.Config.Paths
import DualShell.Toml.Reader

/-!
# Configuration

What can be set for a kernel. Defaults come first, then a file that may set some of the fields, then a variable of the
process that names the module root.
-/

namespace DualShell

/-- The settings of a kernel. -/
structure Config where
  name : String
  /-- Where modules are searched for. -/
  moduleRoot : String
  /-- The extension of module files, without the dot. -/
  moduleExtension : String
  /-- How many bytes a pipe holds. -/
  pipeBuffer : Nat
  /-- How many values a pipe holds. -/
  valueBuffer : Nat
  deriving DecidableEq, Repr

/-- Why a configuration file is not used. -/
inductive ConfigError
  | unreadable (path : String) (fault : ReadFault)
  /-- It is no document, or a field has a value of another kind. -/
  | malformed (path : String)
  deriving DecidableEq, Repr

/-- The report of a configuration error. -/
def ConfigError.message : ConfigError → String
  | .unreadable path fault => s!"reading {path}: {fault.message}"
  | .malformed path => s!"parsing {path}"

namespace Config

/-- The settings when nothing is set. -/
def standard (env : Environment) : Config :=
  ⟨"default", Paths.moduleRoot env, "duo", 65536, 32⟩

/-- The standard settings under another name. -/
def named (env : Environment) (name : String) : Config :=
  { standard env with name }

/-- The settings of a kernel that reads no file. -/
def transient (env : Environment) : Config :=
  named env "transient"

/-- Set how much pipes hold; they hold at least one byte and one value. -/
def withBuffers (c : Config) (bytes values : Nat) : Config :=
  { c with pipeBuffer := max bytes 1, valueBuffer := max values 1 }

/-- A string field; the default if it is not set, none if it is set to something else. -/
def text? (ms : Toml.Members) (key default : String) : Option String :=
  match Toml.get? ms key with
  | none => some default
  | some (.string s) => some s
  | some _ => none

/-- A field that counts something. -/
def count? (ms : Toml.Members) (key : String) (default : Nat) : Option Nat :=
  match Toml.get? ms key with
  | none => some default
  | some (.integer i) => if i < 0 then none else some i.toNat
  | some _ => none

/-- Set what a document sets; other keys of the document mean nothing. -/
def ofToml? (c : Config) (ms : Toml.Members) : Option Config := do
  return {
    name := ← text? ms "name" c.name
    moduleRoot := ← text? ms "module_root" c.moduleRoot
    moduleExtension := ← text? ms "module_extension" c.moduleExtension
    pipeBuffer := ← count? ms "pipe_buffer" c.pipeBuffer
    valueBuffer := ← count? ms "value_buffer" c.valueBuffer }

/-- The settings of a file. -/
def loadFrom (files : FileTree) (env : Environment) (path : String) : Except ConfigError Config :=
  match files.readText path with
  | .error fault => .error (.unreadable path fault)
  | .ok text =>
    match (Toml.read text).bind (standard env).ofToml? with
    | some c => .ok c
    | none => .error (.malformed path)

/-- The variable that names the module root. -/
def moduleRootVariable : String := "DUOSH_MODULE_ROOT"

/-- Let the process name the module root. -/
def withEnvironment (c : Config) (env : Environment) : Config :=
  match Named.get? env moduleRootVariable with
  | some root => if root.isEmpty then c else { c with moduleRoot := root }
  | none => c

/-- The settings of the configuration file in its usual place, if there is one, and of the process. -/
def load (files : FileTree) (env : Environment) : Except ConfigError Config := do
  let path := Paths.configFile env
  let c ← if files.holds path then loadFrom files env path else pure (standard env)
  return c.withEnvironment env

end Config

end DualShell
