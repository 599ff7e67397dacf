import DualShell.CommandLine.Run
import DualShell.CommandLine.Usage
import DualShell.File.System

/-!
# The command line

Reads what the shell needs of the machine it runs on, runs one program, writes back the files that the program changed,
and prints what it showed. Everything between reading and writing is a function of the library.
-/

namespace DualShell.Main

/-- The variables of the process that the shell looks at. -/
def variableNames : List String :=
  ["PATH", "HOME", "XDG_DATA_HOME", "XDG_CONFIG_HOME", Config.moduleRootVariable, "USER", "LANG", "TERM", "TMPDIR"]

/-- The environment of the process. -/
def environment : IO Environment := do
  let entries ← variableNames.filterMapM fun name => do
    return (← IO.getEnv name).map (name, ·)
  return Named.ofList entries

/-- The place of an absolute path. -/
def placeOf (path : String) : FilePath :=
  (FilePath.components path).filter fun c => !c.isEmpty && c != "."

/-- The permissions of a file as far as its content tells: a script can be run. -/
def modeOf (content : Bytes) : Nat :=
  match content with
  | 35 :: 33 :: _ => 0o755
  | _ => FileTree.defaultMode

/-- Add what is at a path, and below it, to a tree. The depth bounds how far down. -/
def addPath (depth : Nat) (path : String) (t : FileTree) : IO FileTree := do
  match depth with
  | 0 => return t
  | depth + 1 =>
    try
      match (← System.mkFilePath [path] |>.metadata).type with
      | .dir =>
        let entries ← (System.mkFilePath [path]).readDir
        entries.foldlM (fun t entry => addPath depth entry.path.toString t) (t.install (placeOf path) .directory)
      | .file =>
        let content := (← IO.FS.readBinFile path).data.toList
        return t.install (placeOf path) (.file content (modeOf content))
      | _ => return t
    catch _ => return t

/-- How far down directories are read. -/
def readDepth : Nat := 8

/-- The files that changed from one tree to another, with their new content. -/
def changes (before after : FileTree) : List (FilePath × Bytes) :=
  after.entries.filterMap fun e =>
    match e.2, before.node? e.1 with
    | .file content _, some (.file old _) => if content == old then none else some (e.1, content)
    | .file content _, none => some (e.1, content)
    | _, _ => none

/-- Write changed files. -/
def writeBack (before after : FileTree) : IO Unit :=
  (changes before after).forM fun c => IO.FS.writeBinFile (FilePath.absolute c.1) ⟨c.2.toArray⟩

/-- Print what a run showed. -/
def emit (o : RunOutput) : IO UInt32 := do
  (← IO.getStdout).putStr o.out
  (← IO.getStdout).flush
  (← IO.getStderr).putStr o.err
  return o.status.toUInt32

/-- Print a report of what went wrong before anything ran. -/
def report (text : String) (status : Nat) : IO UInt32 :=
  emit ⟨"", text, status⟩

/-- Run something on a kernel with the configuration of the user. -/
def withKernel (extra : List String) (run : World → KernelId → Except String (Option RunOutput) × World) : IO UInt32 := do
  let env ← environment
  let cwd ← IO.currentDir
  let roots := [cwd.toString, Paths.configFile env] ++ extra
  let files ← roots.foldlM (fun t path => addPath readDepth path t) (FileTree.system (placeOf cwd.toString))
  match Config.load files env with
  | .error e => report s!"Error: Failed to load configuration: {e.message}\n" RunOutput.failureStatus
  | .ok config =>
    let files ← addPath readDepth config.moduleRoot files
    let (k, w) := (World.create files (.directory config.moduleRoot)).addKernel config env
    let (result, w) := run w k
    writeBack files w.files
    match result with
    | .ok (some o) => emit o
    | .ok none => report "Error: the program does not end\n" RunOutput.failureStatus
    | .error text => report s!"Error: {text}\n" RunOutput.failureStatus

/-- Do what the arguments ask for. -/
def run (usage : Usage) : IO UInt32 :=
  match usage with
  | .help => emit ⟨Usage.helpText, "", 0⟩
  | .version => emit ⟨s!"duosh {version}\n", "", 0⟩
  | .inline text =>
    withKernel [] fun w k =>
      let (o, w) := w.runText k text Usage.inlineName
      (.ok o, w)
  | .file path => withKernel (if FilePath.isAbsolute path then [path] else []) fun w k => w.runFile k path
  | .missingChunk => report "Error: -c requires a chunk argument\n" RunOutput.failureStatus
  | .unknown option =>
    report s!"Unknown option: {option}\nRun 'duosh --help' for usage.\n" RunOutput.refusalStatus

end DualShell.Main

/-- The shell. -/
def main (args : List String) : IO UInt32 :=
  DualShell.Main.run (.ofArguments args)
