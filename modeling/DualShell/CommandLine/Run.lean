import DualShell.CommandLine.Report
import DualShell.Job.Vigil
import DualShell.Kernel.Execute
import DualShell.Machine.Watch

/-!
# Running a program from the command line

A run of the shell on one program: what it shows on its two streams and the status it ends with. Zero means success, one
that the program or one of its jobs failed, two that there was no program to run.
-/

namespace DualShell

/-- What a run of the shell shows, and its status. -/
structure RunOutput where
  out : String
  err : String
  status : Nat
  deriving DecidableEq, Repr

namespace RunOutput

/-- Nothing shown, and success. -/
def empty : RunOutput := ⟨"", "", 0⟩

/-- The status of a failure. -/
def failureStatus : Nat := 1

/-- The status if there was no program to run. -/
def refusalStatus : Nat := 2

/-- Add what a result shows. -/
def absorb (o : RunOutput) (r : RunResult) : RunOutput where
  out := o.out ++ Report.output r
  err :=
    o.err ++ r.err ++
      match r.exception with
      | some e => Report.failure e
      | none => ""
  status := if r.ok then o.status else failureStatus

/-- What is shown of a program and then of the jobs that were waited for. -/
def ofRun (r : RunResult) (jobs : List (JobId × RunResult)) : RunOutput :=
  (r :: jobs.map (·.2)).foldl absorb empty

/-- What is shown instead of running. -/
def refusal (report : String) : RunOutput := ⟨"", report, refusalStatus⟩

end RunOutput

namespace World

/-- What someone sees after a turn who waits for the program of a task, and when it has ended, for the jobs that are
tracked then. -/
def attend (k : KernelId) (main : TaskId) (w : World) : Option Vigil → Option Vigil
  | none => if w.ended.any (·.1 == main) then some (.begin (w.jobs k)) else none
  | some v => some (v.resume (w.jobs k))

/-- What a task has come to as a program, with what was collected of its two streams. -/
def conclude (w : World) (main : TaskId) (out err : CollectorId) : Execution × World :=
  match w.takeEnded main with
  | none => (.unfinished, w)
  | some (outcome, w) =>
    let ((outBytes, outValues), w) := w.takeCollected out
    let ((errBytes, _), w) := w.takeCollected err
    (.ran (.ofOutput outBytes errBytes outValues outcome), w)

/-- Run a resolved program without input, and wait for the jobs that are tracked when it ends; their results, if all
came to one. -/
def runAttended (w : World) (l : Limits) (k : KernelId) (block : Code.Block) :
    Execution × Option (List (JobId × RunResult)) × World :=
  match w.kernel? k with
  | none => (.unfinished, none, w)
  | some kernel =>
    let (main, out, err, w) := w.launch l.evaluator k kernel.globals block [] []
    let id := w.nextTask
    let (pool, vigil) := Pool.watch (attend k id) l.evaluator.evalWork l.requests l.rounds ⟨[(id, main)],
      { w with nextTask := id + 1 }⟩ none
    let (x, w) := pool.world.conclude id out err
    (x, vigil.bind Vigil.results?, w)

/-- Run the program of a text and wait for the jobs that it leaves; none if something of it does not end. -/
def runText (w : World) (k : KernelId) (text source : String) : Option RunOutput × World :=
  match Source.Chunk.ofText? text with
  | none => (some (.refusal "Error: decoding chunk json\n"), w)
  | some chunk =>
    match w.compile k chunk source with
    | (.error e, w) => (some (.refusal (Report.compileError e)), w)
    | (.ok block, w) =>
      match w.runAttended .ample k block with
      | (.ran r, some jobs, w) => (some (.ofRun r jobs), w)
      | (_, _, w) => (none, w)

/-- Run the program of a file; a file that cannot be read is reported. -/
def runFile (w : World) (k : KernelId) (path : String) : Except String (Option RunOutput) × World :=
  match w.files.readText path with
  | .error _ => (.error s!"Failed to read chunk: {path}", w)
  | .ok text =>
    let (o, w) := w.runText k text path
    (.ok o, w)

end World

end DualShell
