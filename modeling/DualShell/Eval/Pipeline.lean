import DualShell.Eval.Form

/-!
# Pipelines

The forms of a pipeline run side by side, each joined to the next by a channel, and the pipeline is done when every form
is. One form alone runs in place. A pipeline in the background becomes a job, which has no input and keeps its output.
-/

namespace DualShell

open Eval

/-- Start the forms of a pipeline in order; the first one reads from `input`. -/
def startForms (ctx : Context) (input : Option Inlet) : List Code.Form → Eval (List TaskId)
  | [] => pure []
  | [form] => do return [← ask (.spawn (.form form ctx ⟨input, none⟩))]
  | form :: rest => do
    let c ← ask (.openChannel ctx.kernel)
    let id ← ask (.spawn (.form form ctx ⟨input, some (.channel c)⟩))
    return id :: (← startForms ctx (some (.channel c)) rest)

/-- The outcomes of tasks once they have ended. -/
def joinAll : List TaskId → Eval (List Outcome)
  | [] => pure []
  | id :: ids => do
    let o ← ask (.join id)
    return o :: (← joinAll ids)

/-- Run something with collectors for its output; what it left. -/
def Context.collect (ctx : Context) (input : Inlet) (body : Context → Eval Unit) : Eval RunResult := do
  let out ← ask .openCollector
  let err ← ask .openCollector
  let outcome ← attempt (body (ctx.withDescriptors (.standard input (.collector out) (.collector err))))
  let (outBytes, values) ← ask (.takeCollected out)
  let (errBytes, _) ← ask (.takeCollected err)
  return .ofOutput outBytes errBytes values outcome

namespace Evaluator

variable (e : Evaluator)

/-- A pipeline that is waited for. -/
def evalForeground (p : Code.Pipeline) (ctx : Context) : Eval Unit :=
  match p.forms with
  | [] => pure ()
  | [form] => e.form form ctx .loose
  | forms => do
    let outcomes ← joinAll (← startForms ctx none forms)
    ofOutcome (composeOutcomes outcomes p.place)

/-- A pipeline. -/
def evalPipeline (p : Code.Pipeline) (ctx : Context) : Eval Unit := do
  if p.background then
    let _ ← ask (.startJob p ctx)
  else e.evalForeground p ctx

/-- Pipelines one after another, up to the first failure. -/
def evalPipelines (ctx : Context) : List Code.Pipeline → Eval Unit
  | [] => pure ()
  | p :: ps => do
    e.evalPipeline p ctx
    evalPipelines ctx ps

/-- A block. -/
def evalBlock (b : Code.Block) (ctx : Context) : Eval Unit :=
  e.evalPipelines ctx b.pipelines

/-- The course of a job. -/
def evalJob (p : Code.Pipeline) (ctx : Context) (id : JobId) : Eval Unit := do
  let c ← ask (.openInput [] [])
  let result ← ctx.collect (.channel c) (e.evalForeground p)
  ask (.finishJob ctx.kernel id result)

/-- The course of something that runs beside the code that started it. -/
def evalWork (work : Work) : Task Outcome :=
  match work with
  | .form form ctx wiring => (e.form form ctx wiring).run
  | .job p ctx id => (e.evalJob p ctx id).run
  | .gather side c k _ => (gather side c k e.bound).run

end Evaluator

end DualShell
