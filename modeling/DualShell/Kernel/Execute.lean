import DualShell.Eval.Run
import DualShell.Kernel.Basic

/-!
# Running programs on a kernel

A program is resolved and then run at the top level of its kernel. What it writes is collected and comes back as one
result, together with the failure that ended it, if any. Nothing of a program that does not resolve is run. Jobs that a
program leaves behind run until they end.
-/

namespace DualShell

/-- What a program comes to. -/
inductive Execution
  /-- It does not resolve, and nothing was run. -/
  | rejected (e : CompileError)
  | ran (r : RunResult)
  /-- It waits for something that never happens, or came to a limit. -/
  | unfinished

/-- The text of a program that is no program. -/
inductive TextExecution
  | undecodable
  | decoded (x : Execution)

namespace World

/-- The start of a resolved program at the top level of a kernel: its task, the collectors of its two streams, and the
machine that holds its input. -/
def launch (w : World) (e : Evaluator) (k : KernelId) (globals : FrameId) (block : Code.Block) (input : Bytes)
    (values : List Value) : Task Outcome × CollectorId × CollectorId × World :=
  let (c, w) := w.addChannel (.closedWith input values)
  let (out, w) := w.addCollector
  let (err, w) := w.addCollector
  let descriptors := Descriptors.standard (.channel c) (.collector out) (.collector err)
  ((e.evalBlock block ⟨k, globals, [], descriptors, []⟩).run, out, err, w)

/-- Run a resolved program. -/
def runBlock (w : World) (limits : Limits) (k : KernelId) (block : Code.Block) (input : Bytes) (values : List Value) :
    Execution × World :=
  match w.kernel? k with
  | none => (.unfinished, w)
  | some kernel =>
    let (main, out, err, w) := w.launch limits.evaluator k kernel.globals block input values
    match limits.run main w with
    | (none, w) => (.unfinished, w)
    | (some outcome, w) =>
      let ((outBytes, outValues), w) := w.takeCollected out
      let ((errBytes, _), w) := w.takeCollected err
      (.ran (.ofOutput outBytes errBytes outValues outcome), w)

/-- Run a program within limits, with an input of bytes and values. -/
def executeWithin (w : World) (limits : Limits) (k : KernelId) (chunk : Source.Chunk) (source : String) (input : Bytes)
    (values : List Value) : Execution × World :=
  match w.compile k chunk source with
  | (.error e, w) => (.rejected e, w)
  | (.ok block, w) => w.runBlock limits k block input values

/-- Run a program. -/
def execute (w : World) (k : KernelId) (chunk : Source.Chunk) (source : String) (input : Bytes) (values : List Value) :
    Execution × World :=
  w.executeWithin .ample k chunk source input values

/-- Run the program of a text, without input. -/
def executeText (w : World) (k : KernelId) (text source : String) : TextExecution × World :=
  match Source.Chunk.ofText? text with
  | none => (.undecodable, w)
  | some chunk =>
    let (x, w) := w.execute k chunk source [] []
    (.decoded x, w)

end World

end DualShell
