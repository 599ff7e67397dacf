import DualShell.Eval.Assign
import DualShell.Eval.Call
import DualShell.Eval.Special

/-!
# Forms

A form runs with a descriptor table of its own: the one around it, the pipe ends of the pipeline, and its redirections
on top. A descriptor that is redirected does not get its pipe end, which is closed instead. Failures record that they
passed through the form.
-/

namespace DualShell

open Eval

/-- Close the pipe ends of a form. -/
def Wiring.close (w : Wiring) : Eval Unit := do
  match w.input with
  | some i => ask (.closeInlet i)
  | none => pure ()
  match w.output with
  | some o => ask (.closeOutlet o)
  | none => pure ()

/-- The pipe ends for descriptors that are redirected, and the others. -/
def Wiring.split (w : Wiring) (redirected : List Nat) : Wiring × Wiring :=
  let zero := redirected.contains 0
  let one := redirected.contains 1
  (⟨if zero then w.input else none, if one then w.output else none⟩,
    ⟨if zero then none else w.input, if one then none else w.output⟩)

/-- Connect pipe ends to the descriptors they are meant for. -/
def Wiring.install (w : Wiring) (descriptors : Descriptors) : Descriptors :=
  let descriptors :=
    match w.input with
    | some i => descriptors.set 0 (some (.reading i))
    | none => descriptors
  match w.output with
  | some o => descriptors.set 1 (some (.writing o))
  | none => descriptors

namespace Evaluator

variable (e : Evaluator)

/-- The table with redirections made, from left to right. -/
def redirect (ctx : Context) : List Code.Redir → Descriptors → Eval Descriptors
  | [], descriptors => pure descriptors
  | r :: rs, descriptors => do
    let descriptors ←
      match r.target with
      | .close => pure (descriptors.set r.fd none)
      | .fd source => ofExcept (descriptors.duplicate source r.fd)
      | .path target => do
        let v ← e.single target ctx "redirection target"
        let path ← ofExcept (v.expectString "redirection target")
        let connection ← ofExcept ((← ask (.openFile path r.mode)).mapError fun e => Cause.io s!"{path}: {e.message}")
        pure (descriptors.set r.fd (some connection))
    redirect ctx rs descriptors

/-- What a form does. -/
def evalAction (action : Code.Action) (ctx : Context) : Eval Unit :=
  match action with
  | .assign op => e.evalAssign op ctx
  | .special op => e.evalSpecial op ctx
  | .call op => e.evalCall op ctx

/-- A form with its pipe ends; those it got are closed when it ends. -/
def evalForm (form : Code.Form) (ctx : Context) (wiring : Wiring) : Eval Unit := do
  let (unused, used) := wiring.split (form.redirs.map (·.fd))
  unused.close
  let outcome ← attempt do
    let descriptors ← e.redirect ctx form.redirs (used.install ctx.descriptors)
    let ctx := ctx.withDescriptors descriptors
    e.withTemps form.temps ctx (e.evalAction form.action ctx)
  used.close
  match outcome with
  | .ok () => pure ()
  | .error ex => throw (ex.passing form.place)

end Evaluator

end DualShell
