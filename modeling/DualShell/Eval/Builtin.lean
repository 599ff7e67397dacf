import DualShell.Builtin.Schema
import DualShell.Eval.Stream
import DualShell.Json.Reader

/-!
# What the builtins do

Each builtin over arguments that its interface has let through.
-/

namespace DualShell

open Eval

/-- The texts of arguments with the separator between them. -/
def joinedText (args : Arguments) : Except Cause String := do
  let separator ← args.optText "sep"
  return separator.intercalate (args.positional.map Value.display)

/-- Whether a test holds of each two arguments that follow each other. -/
def adjacentAll (test : Value → Value → Bool) : List Value → Bool
  | a :: b :: rest => test a b && adjacentAll test (b :: rest)
  | _ => true

/-- The number of a job as a program gives it. -/
def parseJobId (v : Value) : Except Cause JobId := do
  let s ← v.expectString "job id"
  let digits :=
    match s.toList.dropWhile (· == '%') with
    | '+' :: cs => cs
    | cs => cs
  match Position.digits? digits with
  | some n => if n < Nat.pow 2 64 then return n else throw (.type s!"bad job id: {s}")
  | none => throw (.type s!"bad job id: {s}")

/-- What a program sees of a job. -/
def JobInfo.toValue (j : JobInfo) : Value :=
  Value.mapOf [
    (.string "id", .string (toString j.id)),
    (.string "command", .string j.command),
    (.string "status", .string j.status.text)]

/-- Write what a job wrote, and put its values. -/
def RunResult.replay (r : RunResult) (bound : Nat) (ctx : Context) : Eval Unit := do
  if !r.out.isEmpty then ctx.writeTo bound 1 r.out
  if !r.err.isEmpty then ctx.writeTo bound 2 r.err
  ctx.putAll r.values

/-- How a job ended, once it has; nothing if it is not tracked when the wait begins. -/
def awaitJob (ctx : Context) (id : JobId) : Eval (Option RunResult) := do
  if ← ask (.findJob ctx.kernel id) then
    return some (← ask (.waitJob ctx.kernel id))
  else
    return none

/-- The results of jobs once they have ended; jobs nobody tracks any more are left out. -/
def awaitJobs (ctx : Context) : List JobId → Eval (List (JobId × RunResult))
  | [] => pure []
  | id :: ids => do
    let first ← awaitJob ctx id
    let rest ← awaitJobs ctx ids
    match first with
    | some r => return (id, r) :: rest
    | none => return rest

/-- Forget jobs and replay their output, one after another; their failures. -/
def reap (bound : Nat) (ctx : Context) : List (JobId × RunResult) → Eval (List Exception)
  | [] => pure []
  | (id, r) :: rest => do
    ask (.forgetJob ctx.kernel id)
    r.replay bound ctx
    return r.exception.toList ++ (← reap bound ctx rest)

/-- Wait for jobs: the one given, or all. -/
def waitFor (id : Option Value) (bound : Nat) (ctx : Context) : Eval Unit := do
  let results ←
    match id with
    | some v => do
      let id ← ofExcept (parseJobId v)
      match ← awaitJob ctx id with
      | some r => pure [(id, r)]
      | none => fail (.index s!"no such job: {id}")
    | none => do awaitJobs ctx ((← ask (.listJobs ctx.kernel)).map (·.id))
  match ← reap bound ctx results with
  | [] => pure ()
  | [ex] => throw ex
  | exs => throw (.ofCauses exs)

/-- The documents of a text as values, up to the first fault. -/
def putDocuments (ctx : Context) (data : Bytes) : Eval Unit := do
  let (documents, fault) := Json.readStream data
  ctx.putAll (documents.map Value.ofJson)
  match fault with
  | some f => fail (.type ("bad json input: " ++ f.message data))
  | none => pure ()

/-- Lines of descriptor 0 as values. -/
def putLines (ctx : Context) (bound : Nat) (inlet : Inlet) : (rounds : Nat) → Eval Unit
  | 0 => exhausted
  | rounds + 1 => do
    match ← inlet.nextLine bound with
    | none => pure ()
    | some line => do
      ctx.put (.string line)
      putLines ctx bound inlet rounds

/-- All bytes of descriptor 0. -/
def allInput (ctx : Context) (bound : Nat) : Eval Bytes :=
  match ctx.descriptors.input? 0 with
  | some inlet => inlet.readAll bound
  | none => pure []

namespace Evaluator

variable (e : Evaluator)

/-- Do something with each input. -/
def forInputs (argument : Option Value) (ctx : Context) (act : Value → Eval Unit) : Eval Unit := do
  let inputs ← Inputs.of argument ctx
  inputs.visit e.bound fun v => do
    act v
    return .next

/-- What a builtin does. -/
def runBuiltin (command : Builtin) (args : Arguments) (ctx : Context) : Eval Unit := do
  let first := args.positional.head?
  match command with
  | .all => e.forInputs first ctx ctx.put
  | .bool => ctx.put (.bool (first.getD .empty).truthy)
  | .break_ => throw (.ofFlow .break_)
  | .continue_ => throw (.ofFlow .continue_)
  | .each => do
    let inputs ← Inputs.of args.positional[1]? ctx
    inputs.visit e.bound fun v => round (e.call (first.getD .empty) [v] [] ctx)
  | .echo => do ctx.writeTo e.bound 1 ((← ofExcept (joinedText args)) ++ "\n")
  | .eq => ctx.put (.bool (adjacentAll (· == ·) args.positional))
  | .fail =>
    match first with
    | some (.exception _ ex) => throw ex
    | some reason => throw (.ofReason reason)
    | none => throw (.ofReason .empty)
  | .fromJson =>
    match ctx.descriptors.input? 0 with
    | some inlet => do putDocuments ctx (← inlet.readAll e.bound)
    | none => pure ()
  | .fromLines =>
    match ctx.descriptors.input? 0 with
    | some inlet => putLines ctx e.bound inlet e.bound
    | none => pure ()
  | .jobs => do
    match args.opt? "cleanup" with
    | some v => if v.truthy then ask (.cleanupJobs ctx.kernel)
    | none => pure ()
    ctx.putAll ((← ask (.listJobs ctx.kernel)).map JobInfo.toValue)
  | .nop => pure ()
  | .not => ctx.put (.bool !(first.getD .empty).truthy)
  | .notEq => ctx.put (.bool (adjacentAll (fun a b => !(a == b)) args.positional))
  | .print => do ctx.writeTo e.bound 1 (← ofExcept (joinedText args))
  | .put => ctx.putAll args.positional
  | .return_ => throw (.ofFlow .return_)
  | .slurp => do
    match Utf8.decode (← allInput ctx e.bound) with
    | .ok text => ctx.put (.string text)
    | .error fault => fail (.type ("input is not utf-8: " ++ fault.message))
  | .toJson =>
    e.forInputs first ctx fun v => do
      let document ← ofExcept v.toJson
      ctx.writeTo e.bound 1 (document.render ++ "\n")
  | .toLines => e.forInputs first ctx fun v => ctx.writeTo e.bound 1 (v.display ++ "\n")
  | .wait => waitFor first e.bound ctx

/-- Check arguments against the interface of a builtin and run it. -/
def invoke (command : Builtin) (args : List Value) (opts : List (String × Value)) (ctx : Context) : Eval Unit := do
  let args ← ofExcept (command.schema.apply ⟨args, opts⟩)
  e.runBuiltin command args ctx

end Evaluator

end DualShell
