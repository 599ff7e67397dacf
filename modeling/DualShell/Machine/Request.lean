import DualShell.Machine.Context
import DualShell.Module.Cache
import DualShell.Module.Source
import DualShell.Program.Search
import DualShell.Stream.Channel
import DualShell.Value.Index

/-!
# Requests to the machine

All that code can ask of the machine, and the type of the answer to each. A request is plain data, so a run is a sequence of
requests and answers.
-/

namespace DualShell

/-- The number of something that runs. -/
abbrev TaskId := Nat

/-- What the cell of a name is wanted for. -/
inductive Access
  | read
  | write
  /-- To change the inside of its value. -/
  | edit
  /-- To be taken along by a closure, which is a function that is being defined if its variable is given. -/
  | capture (defined : Option String)
  deriving DecidableEq, Repr

/-- A change inside the value of a variable. -/
inductive Edit
  /-- Replace the element at the end of a path of keys. -/
  | replace (keys : List Value) (value : Value)
  /-- Remove the element at the end of a path of keys. -/
  | remove (keys : List Value)

/-- Make a change. -/
def Edit.apply (e : Edit) (root : Value) : Except Cause Value :=
  match e with
  | .replace keys value => root.assocPath keys value
  | .remove keys => root.dissocPath keys

/-- A request. -/
inductive Request
  /-- The cell of a name in a frame; a missing one is made. -/
  | cell (frame : FrameId) (name : String) (access : Access)
  /-- The value of a name in a frame, if it has a cell. -/
  | peek (frame : FrameId) (name : String)
  /-- Drop a name of a frame. -/
  | unbind (frame : FrameId) (name : String)
  /-- The cell of a name among those a closure took along, for the activation in `frame`; resolution found the name
  bound `level` frames out from it. -/
  | taken (frame : FrameId) (captures : List (String × CellId)) (name : String) (level : Nat) (access : Access)
  /-- The value of a fixed variable. -/
  | fixed (name : String)
  /-- The cell of a member of a namespace, which the program refers to under a qualifier. -/
  | member (ns : Namespace) (qualifier name : String)
  | load (cell : CellId)
  | store (cell : CellId) (value : Value)
  | edit (cell : CellId) (change : Edit)
  /-- A new frame with variables of its own, for a closure made in `home`, or for a module; `imports` are the keys of
  the modules being loaded around it. -/
  | activate (home : Option FrameId) (vars : List (String × Value)) (imports : List String)
  /-- An identity that nothing has. -/
  | identity
  /-- The value, with identities for its exceptions. -/
  | adopt (value : Value)
  /-- The variables of a frame as a namespace. -/
  | freeze (name : String) (frame : FrameId)
  | getEnv (kernel : KernelId) (name : String)
  | setEnv (kernel : KernelId) (name text : String)
  | environment (kernel : KernelId)
  | openChannel (kernel : KernelId)
  /-- A channel that holds all it will ever hold. -/
  | openInput (data : Bytes) (values : List Value)
  | openCollector
  /-- Close a collector and take what it holds. -/
  | takeCollected (collector : CollectorId)
  | closeOutlet (outlet : Outlet)
  | closeInlet (inlet : Inlet)
  /-- Write at least one of the bytes. -/
  | write (outlet : Outlet) (data : Bytes)
  | put (outlet : Outlet) (value : Value)
  /-- A step towards a line. -/
  | line (inlet : Inlet)
  /-- A step towards all bytes up to the end. -/
  | toEnd (inlet : Inlet)
  /-- A step towards at most so many bytes. -/
  | upTo (inlet : Inlet) (count : Nat)
  /-- A step towards an item of both streams. -/
  | item (inlet : Inlet) (merging : Merging)
  | openFile (path : String) (mode : RedirMode)
  | readFile (path : String)
  | workingDirectory
  | expand (pattern : String)
  /-- The program of a command, as it is started. -/
  | program (kernel : KernelId) (command : String)
  /-- The key of a module. -/
  | resolveModule (kernel : KernelId) (spec : String)
  /-- The place of a module; a missing one is made. -/
  | findModule (key : String)
  /-- The namespace of a module, whose place was found; none if it is now for the asker to load it. -/
  | claimModule (key : String) (place : PlaceId)
  | fetchModule (key : String)
  | settleModule (key : String) (place : PlaceId) (ns : Option Namespace)
  | startJob (pipeline : Code.Pipeline) (ctx : Context)
  | finishJob (kernel : KernelId) (id : JobId) (result : RunResult)
  | listJobs (kernel : KernelId)
  | cleanupJobs (kernel : KernelId)
  /-- Whether a job is tracked, so that someone may wait for it. -/
  | findJob (kernel : KernelId) (id : JobId)
  /-- The result of a job that was found once it has ended. -/
  | waitJob (kernel : KernelId) (id : JobId)
  | forgetJob (kernel : KernelId) (id : JobId)
  | spawn (work : Work)
  /-- The outcome of a task once it has ended. -/
  | join (task : TaskId)

/-- The answer to a request. -/
abbrev Request.Response : Request → Type
  | .cell .. => CellId
  | .peek .. => Option Value
  | .unbind .. => Unit
  | .taken .. => Option CellId
  | .fixed .. => Option Value
  | .member .. => Option CellId
  | .load .. => Value
  | .store .. => Unit
  | .edit .. => Except Cause Unit
  | .activate .. => FrameId
  | .identity => Nat
  | .adopt .. => Value
  | .freeze .. => Namespace
  | .getEnv .. => Option String
  | .setEnv .. => Unit
  | .environment .. => List (String × String)
  | .openChannel .. => ChannelId
  | .openInput .. => ChannelId
  | .openCollector => CollectorId
  | .takeCollected .. => Bytes × List Value
  | .closeOutlet .. => Unit
  | .closeInlet .. => Unit
  | .write .. => Except Cause Nat
  | .put .. => Except Cause Unit
  | .line .. => Step (Option String)
  | .toEnd .. => Step Bytes
  | .upTo .. => Step Bytes
  | .item .. => Step (Option Value) × Merging
  | .openFile .. => Except OsError Connection
  | .readFile .. => Except OsError Bytes
  | .workingDirectory => String
  | .expand .. => Except Cause (List String)
  | .program .. => Except Cause Program.Launch
  | .resolveModule .. => Except ModuleError String
  | .findModule .. => PlaceId
  | .claimModule .. => Option Namespace
  | .fetchModule .. => Except ModuleError Source.Chunk
  | .settleModule .. => Unit
  | .startJob .. => JobId
  | .finishJob .. => Unit
  | .listJobs .. => List JobInfo
  | .cleanupJobs .. => Unit
  | .findJob .. => Bool
  | .waitJob .. => RunResult
  | .forgetJob .. => Unit
  | .spawn .. => TaskId
  | .join .. => Outcome

end DualShell
