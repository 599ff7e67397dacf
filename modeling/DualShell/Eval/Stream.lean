import DualShell.Eval.Evaluator

/-!
# Reading and writing of running code

Output goes to descriptors 1 and 2, input comes from descriptor 0. Writing waits until all bytes have gone, reading
until a whole portion has come. Consumers of both streams of their input take its items as they come.
-/

namespace DualShell

open Eval

/-- Write all bytes. -/
def Outlet.writeAll (o : Outlet) : (bound : Nat) → Bytes → Eval Unit
  | 0, _ => exhausted
  | bound + 1, data =>
    if data.isEmpty then pure ()
    else do
      let n ← ofExcept (← ask (.write o data))
      writeAll o bound (data.drop n)

/-- The next line; none at the end. -/
def Inlet.nextLine (i : Inlet) : (bound : Nat) → Eval (Option String)
  | 0 => exhausted
  | bound + 1 => do
    match ← ask (.line i) with
    | .done line => pure line
    | .failed cause => fail cause
    | _ => nextLine i bound

/-- All bytes up to the end. -/
def Inlet.readAll (i : Inlet) : (bound : Nat) → Eval Bytes
  | 0 => exhausted
  | bound + 1 => do
    match ← ask (.toEnd i) with
    | .done data => pure data
    | .failed cause => fail cause
    | _ => readAll i bound

/-- At most so many bytes; none at the end. -/
def Inlet.readSome (i : Inlet) (count : Nat) : (bound : Nat) → Eval Bytes
  | 0 => exhausted
  | bound + 1 => do
    match ← ask (.upTo i count) with
    | .done data => pure data
    | .failed cause => fail cause
    | _ => readSome i count bound

/-- The next item of both streams, and which of them are still open; none at the end. -/
def Inlet.nextItem (i : Inlet) : (bound : Nat) → Merging → Eval (Option Value × Merging)
  | 0, _ => exhausted
  | bound + 1, m => do
    let (step, m) ← ask (.item i m)
    match step with
    | .done v => return (v, m)
    | .failed cause => fail cause
    | _ => nextItem i bound m

namespace Context

/-- Put a value on descriptor 1. -/
def put (ctx : Context) (v : Value) : Eval Unit := do
  let o ← ofExcept (ctx.descriptors.expectOutput 1)
  ofExcept (← ask (.put o v))

/-- Put values on descriptor 1, one after another. -/
def putAll (ctx : Context) : List Value → Eval Unit
  | [] => pure ()
  | v :: vs => do
    ctx.put v
    putAll ctx vs

/-- Write a text to a descriptor. -/
def writeTo (ctx : Context) (bound fd : Nat) (text : String) : Eval Unit := do
  let o ← ofExcept (ctx.descriptors.expectOutput fd)
  o.writeAll bound (Utf8.encode text)

end Context

/-- One round of a loop: `break` and `continue` are news for the loop, any other failure leaves it. -/
def Eval.round (body : Eval Unit) : Eval LoopStep := do
  match loopStep (← attempt body) with
  | .ok step => pure step
  | .error ex => throw ex

/-- What a loop over inputs visits. -/
inductive Inputs
  | given (items : List Value)
  | stream (inlet : Inlet) (merging : Merging)

/-- The inputs of a command: what a list argument holds, or else both streams of descriptor 0. -/
def Inputs.of (argument : Option Value) (ctx : Context) : Eval Inputs :=
  match argument with
  | some v => do return .given (← ofExcept v.iterate)
  | none =>
    match ctx.descriptors.input? 0 with
    | some inlet => pure (.stream inlet .both)
    | none => pure (.given [])

/-- Visit items until the visitor stops. -/
def visitItems (visit : Value → Eval LoopStep) : List Value → Eval Unit
  | [] => pure ()
  | v :: vs => do
    match ← visit v with
    | .next => visitItems visit vs
    | .stop => pure ()

/-- Visit the items of both streams until they end or the visitor stops. -/
def visitStream (bound : Nat) (visit : Value → Eval LoopStep) (inlet : Inlet) : (rounds : Nat) → Merging → Eval Unit
  | 0, _ => exhausted
  | rounds + 1, m => do
    match ← inlet.nextItem bound m with
    | (none, _) => pure ()
    | (some v, m) =>
      match ← visit v with
      | .next => visitStream bound visit inlet rounds m
      | .stop => pure ()

/-- Visit inputs until they end or the visitor stops. -/
def Inputs.visit (inputs : Inputs) (bound : Nat) (visit : Value → Eval LoopStep) : Eval Unit :=
  match inputs with
  | .given items => visitItems visit items
  | .stream inlet m => visitStream bound visit inlet bound m

/-- Take what comes through one of the streams of a channel, for a collector; lines are taken as strings. -/
def gather (side : Side) (c : ChannelId) (k : CollectorId) (bound : Nat) : Eval Unit :=
  visitStream bound (fun v => do
    ofExcept (← ask (.put (.collector k) v))
    return .next) (.channel c) bound side.only

end DualShell
