import DualShell.Compile.Program
import DualShell.Eval.Operand

/-!
# Special forms

The bodies of special forms run in the surroundings of the form. A loop catches `break` and `continue` of its own body
and nothing else; a definition's calls catch `return`.
-/

namespace DualShell

open Eval

/-- The report of a chain of imports that comes back to a module. -/
def circularImport (imports : List String) (key : String) : Cause :=
  .module ("circular import: " ++ " -> ".intercalate (imports ++ [key]))

namespace Evaluator

variable (e : Evaluator)

/-- The body of the first branch whose condition holds, else the last part. -/
def branch (otherwise : Option Code.Block) (ctx : Context) : List (Code.Operand × Code.Block) → Eval Unit
  | [] => e.optional otherwise ctx
  | (condition, body) :: rest => do
    if ← e.holds condition ctx then e.block body ctx else branch otherwise ctx rest

/-- The body again and again while the condition holds; whether it ran at all. -/
def whileRounds (condition : Code.Operand) (body : Code.Block) (ctx : Context) : (rounds : Nat) → (ran : Bool) → Eval Bool
  | 0, _ => exhausted
  | rounds + 1, ran => do
    if ← e.holds condition ctx then
      match ← round (e.block body ctx) with
      | .next => whileRounds condition body ctx rounds true
      | .stop => pure true
    else pure ran

/-- The body for each item. -/
def forItems (ref : Ref) (body : Code.Block) (ctx : Context) (items : List Value) : Eval Unit :=
  visitItems
    (fun item => do
      ref.write ctx item
      round (e.block body ctx))
    items

/-- The clause that takes over a failure. -/
def handle (h : Code.Handler) (ex : Exception) (ctx : Context) : Eval Unit := do
  match h.ref with
  | some ref => do
    let identity ← ask .identity
    ref.write ctx (.exception identity ex)
  | none => pure ()
  e.block h.body ctx

/-- What follows a protected body, by how the body ended: a failure goes to the handler, but a flow signal does not, and
success goes to the third part. -/
def afterBody (handler : Option Code.Handler) (otherwise : Option Code.Block) (ctx : Context) : Outcome → Eval Unit
  | .ok () => e.optional otherwise ctx
  | .error ex =>
    match handler with
    | some h => if ex.isFlow then throw ex else e.handle h ex ctx
    | none => throw ex

/-- A protected body and what follows it; the last part runs in every case, and its failure replaces whatever came
before it. -/
def attemptForm (body : Code.Block) (handler : Option Code.Handler) (otherwise finally_ : Option Code.Block)
    (ctx : Context) : Eval Unit := do
  let ended ← attempt (e.block body ctx)
  let outcome ← attempt (e.afterBody handler otherwise ctx ended)
  e.optional finally_ ctx
  ofOutcome outcome

/-- Put the first value whose truth is `decides`, or the last one. -/
def shortCircuit (decides : Bool) (ctx : Context) (last : Value) : List Code.Operand → Eval Unit
  | [] => ctx.put last
  | op :: ops => do
    let vs ← e.operand op ctx
    match vs.find? (·.truthy == decides) with
    | some v => ctx.put v
    | none => shortCircuit decides ctx (vs.getLastD last) ops

/-- Delete variables and elements. -/
def delete (ctx : Context) : List Code.Deletion → Eval Unit
  | [] => pure ()
  | d :: ds => do
    if d.indices.isEmpty then
      match d.ref with
      | .local name => ask (.unbind ctx.frame name)
      | _ => pure ()
    else do
      let ks ← e.keys ctx d.indices
      d.ref.edit ctx (.remove ks)
    delete ctx ds

/-- Run the body of a module in a frame of its own; its variables are its namespace. A flow signal does not leave a
module. -/
def runModule (spec key : String) (body : Code.Block) (ctx : Context) : Eval Namespace := do
  let frame ← ask (.activate none [] (ctx.imports ++ [key]))
  match ← attempt (e.block body (ctx.enterModule frame key)) with
  | .ok () => ask (.freeze spec frame)
  | .error ex =>
    match ex.flow? with
    | some flow => fail (.module s!"{key}: {flow.name} escaped the module body")
    | none => throw ex

/-- Evaluate a module: its chunk is resolved against no names and run. -/
def evalModule (spec key : String) (ctx : Context) : Eval Namespace := do
  let chunk ← ofExcept ((← ask (.fetchModule key)).mapError ModuleError.cause)
  match (chunk.compile key (Scope.ofGlobals [])).1 with
  | .ok body => e.runModule spec key body ctx
  | .error err => fail (.compilation err.message)

/-- The namespace of a module whose place was found. Whoever is granted the place evaluates the module, and settles the
place whatever came of it. -/
def initModule (spec key : String) (place : PlaceId) (ctx : Context) : Eval Namespace := do
  match ← ask (.claimModule key place) with
  | some ns => pure ns
  | none =>
    match ← attempt (e.evalModule spec key ctx) with
    | .ok ns => do
      ask (.settleModule key place (some ns))
      pure ns
    | .error ex => do
      ask (.settleModule key place none)
      throw ex

/-- The namespace of a module, which is evaluated when it is first needed. A module that is being loaded around here is
refused. -/
def loadModule (spec : String) (ctx : Context) : Eval Namespace := do
  let key ← ofExcept ((← ask (.resolveModule ctx.kernel spec)).mapError ModuleError.cause)
  if ctx.imports.contains key then fail (circularImport ctx.imports key)
  else do
    let place ← ask (.findModule key)
    e.initModule spec key place ctx

/-- A special form. -/
def evalSpecial (op : Code.Special) (ctx : Context) : Eval Unit :=
  match op with
  | .branch branches otherwise => e.branch otherwise ctx branches
  | .whileLoop condition body otherwise => do
    if ← e.whileRounds condition body ctx e.bound false then pure () else e.optional otherwise ctx
  | .forLoop ref container body otherwise => do
    let items ← ofExcept (← e.single container ctx "for container").iterate
    if items.isEmpty then e.optional otherwise ctx else e.forItems ref body ctx items
  | .attempt body handler otherwise finally_ => e.attemptForm body handler otherwise finally_ ctx
  | .define ref op => do ref.write ctx (← op.close (some ref.name) ctx)
  | .conjunction operands => e.shortCircuit false ctx (.bool true) operands
  | .disjunction operands => e.shortCircuit true ctx (.bool false) operands
  | .delete targets => e.delete ctx targets
  | .load spec ref => do ref.write ctx (.ns (← e.loadModule spec ctx))

end Evaluator

end DualShell
