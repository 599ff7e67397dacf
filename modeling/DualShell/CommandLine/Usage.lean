/-!
# The arguments of the command line

What a user asks for: a program in a file or in an argument, or words about the shell itself.
-/

namespace DualShell

/-- The version of the shell. -/
def version : String := "0.1.0"

/-- What the arguments ask for. -/
inductive Usage
  | help
  | version
  /-- Run the program in an argument. -/
  | inline (text : String)
  /-- Run the program in a file. -/
  | file (path : String)
  | missingChunk
  | unknown (option : String)
  deriving DecidableEq, Repr

namespace Usage

/-- What arguments ask for; those that are not needed are not looked at. -/
def ofArguments : List String → Usage
  | [] => .help
  | "--help" :: _ => .help
  | "-h" :: _ => .help
  | "--version" :: _ => .version
  | "-V" :: _ => .version
  | "-c" :: text :: _ => .inline text
  | ["-c"] => .missingChunk
  | arg :: _ => if arg.startsWith "-" then .unknown arg else .file arg

/-- The help text. -/
def helpText : String :=
  "\n".intercalate [
    s!"duosh v{DualShell.version}",
    "",
    "Usage:",
    "  duosh <chunk.json>           Run a parsed chunk from a file",
    "  duosh -c <json>              Run a parsed chunk given inline",
    "",
    "Options:",
    "  -c <json>                    Run the chunk and exit",
    "  -h, --help                   Show this help",
    "  -V, --version                Show version",
    "",
    "Value output is printed one per line after byte output, prefixed with ▶.",
    "Exit status is 0 on success, 1 when an exception escapes, 2 when the",
    "chunk does not compile.",
    "",
    "Environment:",
    "  DUOSH_MODULE_ROOT            Directory \x60use\x60 resolves modules against",
    ""]

/-- The name under which a program given as an argument is reported. -/
def inlineName : String := "[-c]"

end Usage

end DualShell
