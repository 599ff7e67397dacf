import DualShell.Machine.Task

/-!
# Variables of running code

How a resolved name reaches its value. A name of the running activation leads to a cell of its frame, which is made if
it is missing; a name taken along by the closure leads to the cell it took along; a member of a namespace to the cell
its module left.
-/

namespace DualShell.Ref

open Eval

mutual

/-- The cell of a variable. Fixed variables and those of the environment have none. -/
def cell (ctx : Context) (access : Access) : Ref → Eval CellId
  | .local name => ask (.cell ctx.frame name access)
  | @captured level name => do
    match ← ask (.taken ctx.frame ctx.captures name level access) with
    | some c => pure c
    | none => fail (.noSuchVariable name)
  | .member ns name => do
    match ← read ctx ns with
    | .ns n =>
      match ← ask (.member n ns.name name) with
      | some c => pure c
      | none => fail (.noSuchVariable (ns.name ++ name))
    | v => fail (.type s!"{ns.name} is a {v.kind}, not a namespace")
  | .builtin name => fail (.type s!"${name} has no cell")
  | .env name => fail (.type s!"${name} has no cell")

/-- The value of a variable. -/
def read (ctx : Context) : Ref → Eval Value
  | .builtin name => do
    match ← ask (.fixed name) with
    | some v => pure v
    | none => fail (.noSuchVariable name)
  | .env name => do return .string ((← ask (.getEnv ctx.kernel name)).getD "")
  | .local name => do ask (.load (← cell ctx .read (.local name)))
  | @captured level name => do ask (.load (← cell ctx .read (@captured level name)))
  | .member ns name => do
    match ← read ctx ns with
    | .ns n =>
      match ← ask (.member n ns.name name) with
      | some c => ask (.load c)
      | none => fail (.noSuchVariable (ns.name ++ name))
    | v => fail (.type s!"{ns.name} is a {v.kind}, not a namespace")

end

/-- Give a variable a value. -/
def write (ctx : Context) (ref : Ref) (value : Value) : Eval Unit :=
  match ref with
  | .env name => do
    let text ← ofExcept (value.expectString "environment variable")
    ask (.setEnv ctx.kernel name text)
  | ref => do ask (.store (← cell ctx .write ref) value)

/-- The value of a variable; none if it was never set. -/
def peek (ctx : Context) (ref : Ref) : Eval (Option Value) :=
  match ref with
  | .local name => ask (.peek ctx.frame name)
  | .env name => do return (← ask (.getEnv ctx.kernel name)).map .string
  | ref => do return some (← read ctx ref)

/-- Change the inside of a variable's value. -/
def edit (ctx : Context) (ref : Ref) (change : Edit) : Eval Unit := do
  ofExcept (← ask (.edit (← cell ctx .edit ref) change))

end DualShell.Ref
