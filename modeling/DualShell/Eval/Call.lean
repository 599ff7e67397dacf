import DualShell.Eval.Builtin
import DualShell.Program.Tool

/-!
# Calls

How a command runs once its head is known. What was resolved to a function has to hold one when it is called; the head
and the arguments are evaluated before anything is called. A closure runs in a new frame of its own, and of its caller
it sees the descriptor table only.
-/

namespace DualShell

open Eval

/-- How deep programs of the system may start each other. -/
def programDepth : Nat := 100

/-- The signal of a writer whose reader is gone. -/
def brokenPipeSignal : Nat := 13

/-- The failure that the end of a program means. -/
def Exit.cause? (e : Exit) (command : String) : Option Cause :=
  match e with
  | .status 0 => none
  | .status n => some (.externalExit command n)
  | .signal n => some (if n == brokenPipeSignal then .readerGone else .externalExit command (128 + n))

/-- The texts of the arguments of a program. -/
def programArguments (args : List Value) : Except Cause (List String) :=
  args.mapM fun v => v.expectString "external command argument"

/-- Run a program with the descriptor table at hand; it fails unless it ends with status zero. -/
def runProgram (name : String) (args : List Value) (bound : Nat) (ctx : Context) : Eval Unit := do
  let args ← ofExcept (programArguments args)
  let launch ← ofExcept (← ask (.program ctx.kernel name))
  if args.any (·.toList.contains '\x00') then fail (.io s!"{name}: nul byte found in provided data")
  let env ← ask (.environment ctx.kernel)
  let stdio : Stdio := ⟨ctx.descriptors.input? 0, ctx.descriptors.output? 1, ctx.descriptors.output? 2⟩
  let exit ← launch.tool.run programDepth
    { name := launch.name, args := launch.front ++ args, env, stdio, kernel := ctx.kernel, bound }
  match exit.cause? name with
  | none => pure ()
  | some c => fail c

/-- Refuse options of a command that takes none. -/
def rejectOpts (callee : String) : List (String × Value) → Except Cause Unit
  | [] => .ok ()
  | (opt, _) :: _ => .error (.type s!"{callee} does not take option &{opt}")

/-- Whether a lambda takes so many arguments. -/
def Code.Lambda.accepts (op : Code.Lambda) (count : Nat) : Bool :=
  match op.rest with
  | some _ => op.params.length ≤ count
  | none => count == op.params.length

/-- The variables of a call: each parameter with its argument, and the rest parameter with a list of the others. -/
def Code.Lambda.bindings (op : Code.Lambda) (args : List Value) : List (String × Value) :=
  op.params.zip args ++
    match op.rest with
    | some rest => [(rest, .list (args.drop op.params.length))]
    | none => []

/-- The variables of a call with any number of arguments. -/
def Code.Lambda.bind (op : Code.Lambda) (args : List Value) : Except Cause (List (String × Value)) :=
  if op.accepts args.length then .ok (op.bindings args) else .error (.arityMismatch "arguments" op.arity args.length)

namespace Evaluator

variable (e : Evaluator)

/-- Call a closure: its body runs in a new frame that holds the parameters, with the cells it took along. -/
def callClosure (c : Closure) (args : List Value) (opts : List (String × Value)) (ctx : Context) : Eval Unit := do
  let params ← ofExcept (c.op.bind args)
  ofExcept (rejectOpts "closure" opts)
  let frame ← ask (.activate (some c.home) params ctx.imports)
  match ← attempt (e.block c.op.body (ctx.enter frame c.captures)) with
  | .ok () => pure ()
  | .error ex => if c.catchesReturn && ex.flow? == some .return_ then pure () else throw ex

/-- Call a program. -/
def callProgram (name : String) (args : List Value) (opts : List (String × Value)) (ctx : Context) : Eval Unit := do
  ofExcept (rejectOpts s!"external command {name}" opts)
  runProgram name args e.bound ctx

/-- Call a value: a closure, or a string that names a builtin or a program. -/
def callValue (callee : Value) (args : List Value) (opts : List (String × Value)) (ctx : Context) : Eval Unit :=
  match callee with
  | .closure c => e.callClosure c args opts ctx
  | .string name =>
    match Builtin.ofName? name with
    | some b => e.invoke b args opts ctx
    | none => e.callProgram name args opts ctx
  | v => fail (.type s!"cannot call a {v.kind}")

/-- The values of options. -/
def optValues (ctx : Context) : List (String × Code.Operand) → Eval (List (String × Value))
  | [] => pure []
  | (name, op) :: rest => do
    let v ← e.single op ctx "option value"
    return (name, v) :: (← optValues ctx rest)

/-- What a head calls, given arguments and options. -/
def callee (head : Code.Head) (ctx : Context) : Eval (List Value → List (String × Value) → Eval Unit) :=
  match head with
  | .function name ref => do
    match ← ref.read ctx with
    | .closure c => return fun args opts => e.callClosure c args opts ctx
    | v => fail (.type s!"{name} is bound to a {v.kind}, not a function")
  | .dynamic op => do
    let v ← e.single op ctx "command head"
    return fun args opts => e.callValue v args opts ctx
  | .builtin b => return fun args opts => e.invoke b args opts ctx
  | .external name => return fun args opts => e.callProgram name args opts ctx

/-- A command. -/
def evalCall (op : Code.Call) (ctx : Context) : Eval Unit := do
  let run ← e.callee op.head ctx
  let args ← e.all ctx op.args
  let opts ← e.optValues ctx op.opts
  run args opts

end Evaluator

end DualShell
