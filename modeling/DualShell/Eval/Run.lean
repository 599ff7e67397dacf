import DualShell.Eval.Pipeline
import DualShell.Machine.Schedule

/-!
# The evaluator

The evaluation of all constructs over each other. Each construct evaluates its parts one level further down, so that a
bound on the depth makes evaluation a total function. A run that reaches a bound has no outcome; one that does not is
not affected by it.
-/

namespace DualShell

/-- The evaluator that goes so deep. -/
def Evaluator.atDepth (bound : Nat) : (depth : Nat) → Evaluator
  | 0 => ⟨fun _ _ => Eval.exhausted, fun _ _ _ => Eval.exhausted, fun _ _ => Eval.exhausted, fun _ _ _ _ =>
      Eval.exhausted, bound⟩
  | depth + 1 =>
    ⟨fun b ctx => (atDepth bound depth).evalBlock b ctx,
      fun form ctx wiring => (atDepth bound depth).evalForm form ctx wiring,
      fun op ctx => (atDepth bound depth).evalOperand op ctx,
      fun callee args opts ctx => (atDepth bound depth).callValue callee args opts ctx,
      bound⟩

/-- How far a run may go. -/
structure Limits where
  /-- How deep evaluation may go. -/
  depth : Nat
  /-- How often a loop may go round. -/
  loop : Nat
  /-- How many requests a task may make in one turn. -/
  requests : Nat
  /-- How many rounds of turns there may be. -/
  rounds : Nat
  deriving DecidableEq, Repr

/-- Limits that no run in practice comes near. -/
def Limits.ample : Limits := ⟨Nat.pow 10 9, Nat.pow 10 12, Nat.pow 10 12, Nat.pow 10 12⟩

/-- The evaluator within limits. -/
def Limits.evaluator (l : Limits) : Evaluator :=
  .atDepth l.loop l.depth

/-- Let a task and all it starts run until nothing moves; its outcome, if it came to one. -/
def Limits.run (l : Limits) (main : Task Outcome) (w : World) : Option Outcome × World :=
  let id := w.nextTask
  let start := l.evaluator.evalWork
  let pool := Pool.run start l.requests l.rounds ⟨[(id, main)], { w with nextTask := id + 1 }⟩
  match pool.world.takeEnded id with
  | some (o, w) => (some o, w)
  | none => (none, pool.world)

end DualShell
