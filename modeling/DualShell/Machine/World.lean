import DualShell.Config.Basic
import DualShell.File.Glob
import DualShell.Machine.Request
import DualShell.Machine.Store
import DualShell.Program.Search

/-!
# The state of the machine

All that a run can change: variables, streams, files, modules, the kernels with their environments and jobs, and what runs.
-/

namespace DualShell

/-- An open file; reading and writing share its offset. -/
structure OpenFile where
  place : FilePath
  offset : Nat
  /-- Writing always goes to the end. -/
  append : Bool
  reader : LineReader
  deriving DecidableEq, Repr

/-- All that was written to a collector, latest first. -/
structure Collector where
  bytes : Bytes
  values : List Value

/-- A kernel: its settings, its environment, its jobs, and its top level with the names that programs may refer to. -/
structure Kernel where
  config : Config
  env : Environment
  jobs : JobTable
  globals : FrameId
  names : List String

/-- The state of the machine. -/
structure World where
  store : Store
  fresh : Nat
  channels : Array Channel
  handles : Array OpenFile
  collectors : Array Collector
  files : FileTree
  source : ModuleSource
  modules : ModuleCache
  kernels : Array Kernel
  nextTask : TaskId
  /-- What was started and has not been taken up, in order. -/
  spawned : List (TaskId × Work)
  /-- The outcomes that nobody has asked for. -/
  ended : List (TaskId × Outcome)

namespace World

/-- A machine without kernels. Identities start at one. -/
def create (files : FileTree) (source : ModuleSource) : World where
  store := .empty
  fresh := 1
  channels := #[]
  handles := #[]
  collectors := #[]
  files := files
  source := source
  modules := .empty
  kernels := #[]
  nextTask := 0
  spawned := []
  ended := []

/-- The kernel of a number. -/
def kernel? (w : World) (k : KernelId) : Option Kernel :=
  w.kernels[k]?

/-- Change a kernel. -/
def modifyKernel (w : World) (k : KernelId) (change : Kernel → Kernel) : World :=
  { w with kernels := w.kernels.modify k change }

/-- Make a channel. -/
def addChannel (w : World) (c : Channel) : ChannelId × World :=
  (w.channels.size, { w with channels := w.channels.push c })

/-- Make a collector. -/
def addCollector (w : World) : CollectorId × World :=
  (w.collectors.size, { w with collectors := w.collectors.push ⟨[], []⟩ })

/-- Open a file. -/
def addHandle (w : World) (place : FilePath) (append : Bool) : HandleId × World :=
  (w.handles.size, { w with handles := w.handles.push ⟨place, 0, append, .empty⟩ })

/-- Take what a collector holds. -/
def takeCollected (w : World) (k : CollectorId) : (Bytes × List Value) × World :=
  match w.collectors[k]? with
  | none => (([], []), w)
  | some c =>
    ((c.bytes.reverse, c.values.reverse), { w with collectors := w.collectors.setIfInBounds k ⟨[], []⟩ })

/-- Start something. -/
def spawn (w : World) (work : Work) : TaskId × World :=
  (w.nextTask, { w with nextTask := w.nextTask + 1, spawned := w.spawned ++ [(w.nextTask, work)] })

/-- Record how a task ended. -/
def endTask (w : World) (id : TaskId) (o : Outcome) : World :=
  { w with ended := w.ended ++ [(id, o)] }

/-- The outcome of a task that ended; it is handed out once. -/
def takeEnded (w : World) (id : TaskId) : Option (Outcome × World) :=
  match w.ended.find? (·.1 == id) with
  | some (_, o) => some (o, { w with ended := w.ended.filter (·.1 != id) })
  | none => none

/-- Bytes of a file from its offset on. -/
def fetchFile (files : FileTree) (count : Nat) (h : OpenFile) : Fetch × OpenFile :=
  match files.contentAt h.place with
  | .ok content =>
    let data := (content.drop h.offset).take count
    (.bytes data, { h with offset := h.offset + data.length })
  | .error e => (.failed (.io e.message), h)

/-- A step of the reader of an open file. -/
def readingFile {α : Type} (step : LineReader → OpenFile → Step α × LineReader × OpenFile) (h : OpenFile) :
    Step α × OpenFile :=
  let (result, reader, h) := step h.reader h
  (result, { h with reader })

/-- A step of the reader at an inlet. -/
def reading {α : Type} (w : World) (inlet : Inlet) (onChannel : Channel → Step α × Channel)
    (onFile : OpenFile → Step α × OpenFile) : Step α × World :=
  match inlet with
  | .channel c =>
    match w.channels[c]? with
    | none => (.blocked, w)
    | some channel =>
      let (result, channel) := onChannel channel
      (result, { w with channels := w.channels.setIfInBounds c channel })
  | .file h =>
    match w.handles[h]? with
    | none => (.blocked, w)
    | some handle =>
      let (result, handle) := onFile handle
      (result, { w with handles := w.handles.setIfInBounds h handle })

/-- A step towards a line. -/
def line (w : World) (who : TaskId) (inlet : Inlet) : Step (Option String) × World :=
  w.reading inlet (·.line who) (readingFile (LineReader.line (fetchFile w.files)))

/-- A step towards all bytes up to the end. -/
def toEnd (w : World) (who : TaskId) (inlet : Inlet) : Step Bytes × World :=
  w.reading inlet (·.toEnd who) (readingFile (LineReader.toEnd (fetchFile w.files)))

/-- A step towards at most so many bytes. -/
def upTo (w : World) (who : TaskId) (inlet : Inlet) (count : Nat) : Step Bytes × World :=
  w.reading inlet (·.upTo who count) (readingFile (LineReader.upTo (fetchFile w.files) count))

/-- A step towards an item of both streams; of two that are there the value comes first. A file has lines only. -/
def item (w : World) (who : TaskId) (inlet : Inlet) (m : Merging) : Step (Option Value) × Merging × World :=
  match inlet with
  | .channel c =>
    match w.channels[c]? with
    | none => (.blocked, m, w)
    | some channel =>
      let (result, m, channel) := channel.item .values who m
      (result, m, { w with channels := w.channels.setIfInBounds c channel })
  | .file _ =>
    let (result, w) := w.line who inlet
    (result.map (Option.map .string), m, w)

/-- Write at an outlet; none if there is no room. -/
def write (w : World) (who : TaskId) (outlet : Outlet) (data : Bytes) : Option (Except Cause Nat) × World :=
  match outlet with
  | .channel c =>
    match w.channels[c]? with
    | none => (some (.error .readerGone), w)
    | some channel =>
      let (result, channel) := channel.write who data
      let w := { w with channels := w.channels.setIfInBounds c channel }
      match result with
      | .accepted n => (some (.ok n), w)
      | .broken => (some (.error .readerGone), w)
      | .pending => (none, w)
  | .file h =>
    match w.handles[h]? with
    | none => (some (.error .readerGone), w)
    | some handle =>
      let offset := if handle.append then w.files.length handle.place else handle.offset
      (some (.ok data.length),
        { w with
          files := w.files.writeAt handle.place offset data
          handles := w.handles.setIfInBounds h { handle with offset := offset + data.length } })
  | .collector k =>
    (some (.ok data.length),
      { w with collectors := w.collectors.modify k fun c => { c with bytes := data.reverse ++ c.bytes } })

/-- Put a value at an outlet; none if there is no room. Values put into a file vanish. -/
def put (w : World) (outlet : Outlet) (v : Value) : Option (Except Cause Unit) × World :=
  match outlet with
  | .channel c =>
    match w.channels[c]? with
    | none => (some (.error .readerGone), w)
    | some channel =>
      let (result, channel) := channel.put v
      let w := { w with channels := w.channels.setIfInBounds c channel }
      match result with
      | .accepted => (some (.ok ()), w)
      | .broken => (some (.error .readerGone), w)
      | .pending => (none, w)
  | .file _ => (some (.ok ()), w)
  | .collector k =>
    (some (.ok ()), { w with collectors := w.collectors.modify k fun c => { c with values := v :: c.values } })

/-- Drop a share of the producer's end of a channel. -/
def closeOutlet (w : World) (outlet : Outlet) : World :=
  match outlet with
  | .channel c => { w with channels := w.channels.modify c Channel.dropOutlet }
  | _ => w

/-- Drop the consumer's end of a channel. -/
def closeInlet (w : World) (inlet : Inlet) : World :=
  match inlet with
  | .channel c => { w with channels := w.channels.modify c Channel.dropInlet }
  | .file _ => w

/-- Open a file for a redirection. -/
def openFile (w : World) (path : String) (mode : RedirMode) : Except OsError Connection × World :=
  match mode with
  | .read =>
    match w.files.lookup path with
    | .error e => (.error e, w)
    | .ok (place, _) =>
      let (h, w) := w.addHandle place false
      (.ok (.reading (.file h)), w)
  | .write =>
    match w.files.openForWriting path true with
    | .error e => (.error e, w)
    | .ok (place, files) =>
      let (h, w) := { w with files }.addHandle place false
      (.ok (.writing (.file h)), w)
  | .append =>
    match w.files.openForWriting path false with
    | .error e => (.error e, w)
    | .ok (place, files) =>
      let (h, w) := { w with files }.addHandle place true
      (.ok (.writing (.file h)), w)
  | .readWrite =>
    match w.files.openForWriting path false with
    | .error e => (.error e, w)
    | .ok (place, files) =>
      let (h, w) := { w with files }.addHandle place false
      (.ok ⟨some (.file h), some (.file h)⟩, w)

/-- The variables of a frame as a namespace. -/
def freeze (w : World) (name : String) (f : FrameId) : Namespace × World :=
  (⟨w.fresh, name, (w.store.frame f).sorted⟩, { w with fresh := w.fresh + 1 })

/-- A new frame with variables of its own. -/
def activate (w : World) (home : Option FrameId) (vars : List (String × Value)) : FrameId × World :=
  let (f, store) := w.store.newFrame home
  let store := vars.foldl (fun (store : Store) v => store.setVar f v.1 v.2) store
  (f, { w with store })

/-- The environment of a kernel. -/
def environment (w : World) (k : KernelId) : Environment :=
  match w.kernel? k with
  | some kernel => kernel.env
  | none => []

/-- The jobs of a kernel. -/
def jobs (w : World) (k : KernelId) : JobTable :=
  match w.kernel? k with
  | some kernel => kernel.jobs
  | none => .empty

/-- Change the jobs of a kernel. -/
def setJobs (w : World) (k : KernelId) (jobs : JobTable) : World :=
  w.modifyKernel k fun kernel => { kernel with jobs }

/-- Track a job and start it. -/
def startJob (w : World) (pipeline : Code.Pipeline) (ctx : Context) : JobId × World :=
  let (id, jobs) := (w.jobs ctx.kernel).spawn pipeline.text
  let (_, w) := (w.setJobs ctx.kernel jobs).spawn (.job pipeline ctx id)
  (id, w)

/-- The key of a module. -/
def resolveModule (w : World) (k : KernelId) (spec : String) : Except ModuleError String := do
  let extension :=
    match w.kernel? k with
    | some kernel => kernel.config.moduleExtension
    | none => ""
  let path ← ModuleSpec.path spec extension
  w.source.resolve w.files path

end World

end DualShell
