import DualShell.Eval.Variable

/-!
# The parts of an evaluator

What the evaluation of one construct needs of the evaluation of its parts. Each construct is defined over any evaluator
of its parts; the evaluator itself is tied from them at the end.
-/

namespace DualShell

/-- Evaluation of the parts of programs. -/
structure Evaluator where
  block : Code.Block → Context → Eval Unit
  form : Code.Form → Context → Wiring → Eval Unit
  operand : Code.Operand → Context → Eval (List Value)
  /-- Call a value with arguments and options. -/
  call : Value → List Value → List (String × Value) → Context → Eval Unit
  /-- How often a loop may go round. -/
  bound : Nat

namespace Evaluator

open Eval

variable (e : Evaluator)

/-- The values of several operands, one after another. -/
def all (ctx : Context) : List Code.Operand → Eval (List Value)
  | [] => pure []
  | op :: ops => do
    let vs ← e.operand op ctx
    return vs ++ (← all ctx ops)

/-- The value of an operand that has to yield exactly one; its role is named in the error. -/
def single (op : Code.Operand) (ctx : Context) (what : String) : Eval Value := do
  match ← e.operand op ctx with
  | [v] => pure v
  | vs => fail (.arityMismatch what "1" vs.length)

/-- The values of index operands. -/
def keys (ctx : Context) : List Code.Operand → Eval (List Value)
  | [] => pure []
  | op :: ops => do
    let k ← e.single op ctx "index"
    return k :: (← keys ctx ops)

/-- A body that may be absent. -/
def optional (body : Option Code.Block) (ctx : Context) : Eval Unit :=
  match body with
  | some body => e.block body ctx
  | none => pure ()

/-- Whether all values of an operand are true. -/
def holds (op : Code.Operand) (ctx : Context) : Eval Bool := do
  return (← e.operand op ctx).all Value.truthy

end Evaluator

end DualShell
