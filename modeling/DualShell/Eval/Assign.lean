import DualShell.Eval.Operand

/-!
# Assignment

Values are bound to targets by position, all of them or none: the number of values is checked before anything is written. A
temporary assignment remembers what each variable held, so that it can be put back.
-/

namespace DualShell

open Eval

/-- The number of values that targets take, in words. -/
def assignArity (targets : List Code.Target) : String :=
  let fixed := (targets.filter fun t => !t.rest).length
  if targets.any (·.rest) then s!"{fixed} or more" else toString fixed

/-- Check the number of values for targets; a rest target takes any number. -/
def checkArity (targets : List Code.Target) (got : Nat) : Except Cause Unit :=
  let fixed := (targets.filter fun t => !t.rest).length
  if (if targets.any (·.rest) then fixed ≤ got else got == fixed) then .ok ()
  else .error (.arityMismatch "assignment right-hand side" (assignArity targets) got)

/-- The value of each target: one each, and all that are left for a rest target. -/
def shares : List Code.Target → List Value → List (Code.Target × Value)
  | [], _ => []
  | t :: ts, vs =>
    if t.rest then (t, .list vs) :: shares ts []
    else
      match vs with
      | v :: vs => (t, v) :: shares ts vs
      | [] => (t, .empty) :: shares ts []

/-- A variable and what it held. -/
abbrev Saved := Ref × Option Value

/-- Set variables for a while; what they held before is added to what was saved, latest first. -/
def setAside (ctx : Context) : List (Code.Target × Value) → List Saved → Task (List Saved × Outcome)
  | [], saved => pure (saved, .ok ())
  | (t, v) :: rest, saved => do
    match ← (t.ref.peek ctx).run with
    | .error ex => pure (saved, .error ex)
    | .ok prior =>
      match ← (t.ref.write ctx v).run with
      | .error ex => pure ((t.ref, prior) :: saved, .error ex)
      | .ok () => setAside ctx rest ((t.ref, prior) :: saved)

/-- Put variables back; one that was not set becomes the empty string. The first failure counts. -/
def putBack (ctx : Context) : List Saved → Task Outcome
  | [] => pure (.ok ())
  | (ref, prior) :: rest => do
    let first ← (ref.write ctx (prior.getD .empty)).run
    let others ← putBack ctx rest
    match first with
    | .error ex => pure (.error ex)
    | .ok () => pure others

namespace Evaluator

variable (e : Evaluator)

/-- Write one target. -/
def setTarget (ctx : Context) (t : Code.Target) (v : Value) : Eval Unit :=
  if t.indices.isEmpty then t.ref.write ctx v
  else do
    let ks ← e.keys ctx t.indices
    t.ref.edit ctx (.replace ks v)

/-- Write targets from left to right. -/
def setTargets (ctx : Context) : List (Code.Target × Value) → Eval Unit
  | [] => pure ()
  | (t, v) :: rest => do
    e.setTarget ctx t v
    setTargets ctx rest

/-- The values of an assignment, of which there are as many as its targets take. -/
def assignValues (op : Code.Assign) (ctx : Context) : Eval (List Value) := do
  let vs ← e.all ctx op.values
  ofExcept (checkArity op.targets vs.length)
  return vs

/-- Assign. -/
def evalAssign (op : Code.Assign) (ctx : Context) : Eval Unit := do
  let vs ← e.assignValues op ctx
  e.setTargets ctx (shares op.targets vs)

/-- Make temporary assignments in order, as far as they succeed. -/
def setTemps (ctx : Context) : List Code.Assign → List Saved → Task (List Saved × Outcome)
  | [], saved => pure (saved, .ok ())
  | op :: ops, saved => do
    match ← (e.assignValues op ctx).run with
    | .error ex => pure (saved, .error ex)
    | .ok vs =>
      match ← setAside ctx (op.targets.zip vs) saved with
      | (saved, .error ex) => pure (saved, .error ex)
      | (saved, .ok ()) => setTemps ctx ops saved

/-- Run something under temporary assignments and undo them. A failure of the assignments or of what ran comes before
one of the undoing. -/
def withTemps (temps : List Code.Assign) (ctx : Context) (body : Eval Unit) : Eval Unit :=
  if temps.isEmpty then body
  else do
    let (saved, ready) ← ExceptT.lift (e.setTemps ctx temps [])
    let outcome ←
      match ready with
      | .ok () => attempt body
      | .error ex => pure (.error ex)
    let restored ← ExceptT.lift (putBack ctx saved)
    match outcome with
    | .ok () => ofOutcome restored
    | .error ex => throw ex

end Evaluator

end DualShell
