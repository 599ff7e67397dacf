import DualShell.Eval.Stream

/-!
# Operands

What each kind of operand yields. Most yield one value; an exploded list, a capture and a wildcard yield any number. The
parts of a compound word are joined in every combination, the first part varying slowest.
-/

namespace DualShell

open Eval

/-- The cells a lambda takes along from the activation that makes it, for the function that is being defined, if any. -/
def takeAlong (defined : Option String) (ctx : Context) : List Capture → Eval (List (String × CellId))
  | [] => pure []
  | c :: cs => do
    let cell ←
      match c.source with
      | .local => ask (.cell ctx.frame c.name (.capture defined))
      | @CaptureSource.captured level => do
        match ← ask (.taken ctx.frame ctx.captures c.name level (.capture defined)) with
        | some cell => pure cell
        | none => fail (.noSuchVariable c.name)
    return (c.name, cell) :: (← takeAlong defined ctx cs)

/-- Make a closure. A function that is being defined, under the name of its variable, catches `return`. -/
def Code.Lambda.close (op : Code.Lambda) (defined : Option String) (ctx : Context) : Eval Value := do
  let captures ← takeAlong defined ctx op.captures
  let identity ← ask .identity
  return .closure ⟨identity, op, captures, defined.isSome, ctx.frame⟩

/-- Join every word so far with every value of the next part. -/
def joinWords (words : List String) (values : List Value) : Except Cause (List String) :=
  match words with
  | [] => .ok []
  | w :: ws => do
    let front ← values.mapM fun v =>
      match v with
      | .string s => .ok (w ++ s)
      | v => .error (.type s!"cannot concatenate a {v.kind}")
    return front ++ (← joinWords ws values)

/-- Index a value by keys one after another. -/
def indexAll (v : Value) : List Value → Except Cause Value
  | [] => .ok v
  | k :: ks => do indexAll (← v.index k) ks

/-- The end of the block of a capture is the end of its output. What was taken of it are the items, if neither the block
nor a reader failed; a failure of the block comes first. -/
def captured (c : ChannelId) (k : CollectorId) (values lines : TaskId) (result : Outcome) : Eval (List Value) := do
  ask (.closeOutlet (.channel c))
  let _ ← ask (.join values)
  let read ← ask (.join lines)
  ask (.closeInlet (.channel c))
  let (_, items) ← ask (.takeCollected k)
  ofOutcome result
  ofOutcome read
  return items

namespace Evaluator

variable (e : Evaluator)

/-- The words of a compound, given those of the parts before. -/
def compound (ctx : Context) (words : List String) : List Code.Operand → Eval (List String)
  | [] => pure words
  | part :: parts => do
    let values ← e.operand part ctx
    let words ← ofExcept (joinWords words values)
    compound ctx words parts

/-- The pairs of a map operand. -/
def pairs (ctx : Context) : List (Code.Operand × Code.Operand) → Eval (List (Value × Value))
  | [] => pure []
  | (k, v) :: rest => do
    let key ← e.single k ctx "map key"
    let value ← e.single v ctx "map value"
    return (key, value) :: (← pairs ctx rest)

/-- The output of a block: its values, and its lines as strings. They come through a channel, and both streams of it are
read while the block runs; so a block that writes more than the channel holds goes on as its output is taken, and the
items are in the order in which they were taken. -/
def capture (body : Code.Block) (ctx : Context) : Eval (List Value) := do
  let c ← ask (.openChannel ctx.kernel)
  let k ← ask .openCollector
  let values ← ask (.spawn (.gather .values c k ctx))
  let lines ← ask (.spawn (.gather .bytes c k ctx))
  let result ← attempt (e.block body (ctx.withDescriptors (ctx.descriptors.set 1 (some (.writing (.channel c))))))
  captured c k values lines result

/-- The failure of a block as a value; a flow signal is not caught. -/
def rescue (body : Code.Block) (ctx : Context) : Eval Value := do
  match ← attempt (e.block body ctx) with
  | .ok () => pure .ok
  | .error ex => if ex.isFlow then throw ex else return .exception (← ask .identity) ex

/-- The values of an operand. -/
def evalOperand (op : Code.Operand) (ctx : Context) : Eval (List Value) :=
  match op with
  | .literal text => pure [.string text]
  | .var ref explode => do
    let v ← ref.read ctx
    if explode then
      match v with
      | .list items => pure items
      | v => fail (.type s!"cannot explode a {v.kind}")
    else pure [v]
  | .index base indices => do
    let v ← e.single base ctx "indexee"
    let ks ← e.keys ctx indices
    let v ← ofExcept (indexAll v ks)
    return [← ask (.adopt v)]
  | .list items => do return [.list (← e.all ctx items)]
  | .map ps => do return [Value.mapOf (← e.pairs ctx ps)]
  | .lambda op => do return [← op.close none ctx]
  | .capture body => e.capture body ctx
  | .rescue body => do return [← e.rescue body ctx]
  | .compound parts => do return (← e.compound ctx [""] parts).map .string
  | .wildcard pattern mayMiss => do
    match ← ask (.expand pattern) with
    | .error c => fail (.io c.message)
    | .ok paths =>
      if paths.isEmpty && !mayMiss then fail (.noMatch pattern)
      else return paths.map .string

end Evaluator

end DualShell
