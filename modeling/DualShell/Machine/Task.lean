import DualShell.Machine.Request

/-!
# Tasks

Code as the machine sees it: a tree of requests, each with a branch for every answer. Running one task is to answer its
requests one after another; running several is to take turns. `Eval` adds failures.
-/

namespace DualShell

/-- A task that yields a value. -/
inductive Task (α : Type) : Type
  | ret (a : α)
  | request (r : Request) (next : r.Response → Task α)
  /-- The task was cut short: evaluation went deeper than its bound. -/
  | exhausted

namespace Task

variable {α β γ : Type}

/-- Go on with the value of a task. -/
def bind : Task α → (α → Task β) → Task β
  | ret a, f => f a
  | request r next, f => request r fun x => bind (next x) f
  | exhausted, _ => exhausted

instance : Monad Task where
  pure := ret
  bind := bind

theorem bind_ret (t : Task α) : t.bind ret = t := by
  induction t with
  | ret _ => rfl
  | request r next ih => exact congrArg (request r) (funext ih)
  | exhausted => rfl

theorem bind_assoc (t : Task α) (f : α → Task β) (g : β → Task γ) : (t.bind f).bind g = t.bind fun a => (f a).bind g := by
  induction t with
  | ret _ => rfl
  | request r next ih => exact congrArg (request r) (funext ih)
  | exhausted => rfl

instance : LawfulMonad Task :=
  LawfulMonad.mk' _ bind_ret (fun _ _ => rfl) bind_assoc

/-- Make a request and yield its answer. -/
def ask (r : Request) : Task r.Response :=
  request r ret

end Task

/-- Evaluation: a task that can fail. -/
abbrev Eval := ExceptT Exception Task

namespace Eval

variable {α : Type}

/-- Make a request. -/
def ask (r : Request) : Eval r.Response :=
  ExceptT.lift (Task.ask r)

/-- Fail with a cause. -/
def fail (c : Cause) : Eval α :=
  throw (.ofCause c)

/-- Succeed, or fail with a cause. -/
def ofExcept : Except Cause α → Eval α
  | .ok a => pure a
  | .error c => fail c

/-- End with an outcome. -/
def ofOutcome : Outcome → Eval Unit
  | .ok () => pure ()
  | .error e => throw e

/-- Evaluation that goes deeper than its bound. -/
def exhausted : Eval α :=
  ExceptT.mk Task.exhausted

/-- Evaluate and yield success or failure alike. -/
def attempt (x : Eval α) : Eval (Except Exception α) :=
  ExceptT.lift x.run

theorem run_attempt_bind {β : Type} (x : Eval α) (f : Except Exception α → Eval β) :
    (attempt x >>= f).run = x.run.bind fun r => (f r).run :=
  Task.bind_assoc x.run _ _

end Eval

end DualShell
