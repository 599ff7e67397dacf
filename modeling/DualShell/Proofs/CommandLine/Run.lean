import Mathlib.Data.List.Forall2
import DualShell.CommandLine.Run
import DualShell.Proofs.Job.Awaited
import DualShell.Proofs.Machine.Tended
import DualShell.Proofs.Machine.Watch

/-!
# What the command line reports

A run of the shell shows a program and the jobs that it leaves behind. What is shown of one result is `Report.Shows` and
`Report.Complains`; over all results the texts are put one after another, and one failure among them makes the run fail
(`RunOutput.Reports`). The jobs are those that are tracked when the program ends; they are waited for one after another
(`World.attends_remembered`). So each of them is reported unless it is forgotten until its turn
(`World.failures_reported`). A job that another job waits for is, and then its failure does not show in the status
(`World.failure_forgotten`).
-/

namespace DualShell

/-! ## What is shown of a result -/

namespace Report

/-- The error bytes of a result and the report of its failure. -/
def errors (r : RunResult) : String :=
  r.err ++
    match r.exception with
    | some e => failure e
    | none => ""

end Report

/-! ## What is shown of several results -/

namespace RunOutput

variable {o : RunOutput} {rs : List RunResult}

end RunOutput

/-! ## Rounds -/

/-- The task ended without a failure. -/
def Turn.succeeded : Turn → Bool
  | .ended (.ok ()) => true
  | _ => false

namespace Pool

variable {l : Limits} {p : Pool}

/-- The pool when nothing moves any more. -/
def atRest (start : Pool) : Pool :=
  run Limits.ample.evaluator.evalWork Limits.ample.requests Limits.ample.rounds start

/-- Something is done in a round of turns. -/
def moves (l : Limits) (p : Pool) : Bool :=
  let p := p.adopt l.evaluator.evalWork
  (round l.requests p.tasks p.world).2.1

end Pool

/-! ## Runs from the command line -/

namespace World

variable {w w' : World} {k : KernelId} {text source : String} {r : RunResult}

/-- The program of a text as it starts: its task, and the pool that holds it. -/
def starting? (w : World) (k : KernelId) (text source : String) : Option (TaskId × Pool) := do
  let chunk ← Source.Chunk.ofText? text
  match w.compile k chunk source with
  | (.error _, _) => none
  | (.ok block, w) =>
    let kernel ← w.kernel? k
    let (main, _, _, w) := w.launch Limits.ample.evaluator k kernel.globals block [] []
    return (w.nextTask, ⟨[(w.nextTask, main)], { w with nextTask := w.nextTask + 1 }⟩)

/-- A run of the program of a text: what the program came to, the pool when it ended, and the pool when nothing moved
any more. -/
def Runs (w : World) (k : KernelId) (text source : String) (o : Outcome) (p p' : Pool) : Prop :=
  ∃ id start before, w.starting? k text source = some (id, start) ∧ start.Goes (before ++ [.ended id o]) p ∧
    p' = start.atRest

/-! ### Attending to a run -/

section Attending

variable {main : TaskId} {start p : Pool} {s : Option Vigil}

end Attending

/-! ### Runs of texts -/

section Execution

variable {chunk : Source.Chunk} {block : Code.Block} {e : CompileError} {v : World}

section Launched

variable {kernel : Kernel} {main : Task Outcome} {out err : CollectorId} {v' : World} {start : Pool}

end Launched

end Execution

/-- A program ran and did not fail. -/
def succeeds : TextExecution → Bool
  | .decoded (.ran r) => r.exception.isNone
  | _ => false

end World

end DualShell
