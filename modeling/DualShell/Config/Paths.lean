import DualShell.File.Tree

/-!
# Where things are kept

The directories for configuration and data, from the variables of the process: a variable that holds an absolute path
names the directory, else it lies below the home directory.
-/

namespace DualShell

/-- The variables of a process, sorted by name. -/
abbrev Environment := List (String × String)

namespace Paths

/-- The home directory. -/
def home (env : Environment) : String :=
  (Named.get? env "HOME").getD "/tmp"

/-- A directory named by a variable, or else its place below the home directory. -/
def base (env : Environment) (name fallback : String) : String :=
  match Named.get? env name with
  | some path => if FilePath.isAbsolute path then path else FilePath.join (home env) fallback
  | none => FilePath.join (home env) fallback

/-- Where data is kept. -/
def dataHome (env : Environment) : String :=
  base env "XDG_DATA_HOME" ".local/share"

/-- Where configuration is kept. -/
def configHome (env : Environment) : String :=
  base env "XDG_CONFIG_HOME" ".config"

/-- The configuration of the shell. -/
def configDir (env : Environment) : String :=
  FilePath.join (configHome env) "duosh"

/-- The data of the shell. -/
def dataDir (env : Environment) : String :=
  FilePath.join (dataHome env) "duosh"

/-- The configuration file. -/
def configFile (env : Environment) : String :=
  FilePath.join (configDir env) "config.toml"

/-- Where modules are kept unless a configuration says otherwise. -/
def moduleRoot (env : Environment) : String :=
  FilePath.join (dataDir env) "lib"

end Paths

end DualShell
