import DualShell.Builtin.Basic
import DualShell.Source.Basic

/-!
# Resolved programs

What a program becomes once every name in it is resolved. All that can be known before running is settled here: through which
route a variable reaches its cell, which cells a lambda takes along when it is made, and whether the head of a command is a
special form, a function, a builtin or an external program.
-/

namespace DualShell

/-- A place in a named program text. -/
structure Place where
  source : String
  span : Span
  deriving DecidableEq, Repr

/-- A place as written in a traceback. -/
def Place.text (p : Place) : String :=
  s!"{p.source}:{p.span.start.toNat}-{p.span.stop.toNat}"

/-- How a variable reaches its cell at run time. -/
inductive Ref
  /-- In the frame of the running activation. -/
  | local (name : String)
  /-- Among the cells the running closure took along. Resolution found the name bound `level` frames out from the
  running one; running code has no use for that number. -/
  | captured {level : Nat} (name : String)
  /-- A fixed variable that cannot be written. -/
  | builtin (name : String)
  /-- In the process environment. -/
  | env (name : String)
  /-- A member of an imported namespace. -/
  | member (namespace_ : Ref) (name : String)
  deriving DecidableEq, Repr

/-- The name of a reference as typed. -/
def Ref.name : Ref → String
  | .local n => n
  | .captured n => n
  | .builtin n => n
  | .env n => "E:" ++ n
  | .member ns n => ns.name ++ n

/-- Where a lambda finds a cell it takes along, in the activation that makes it. -/
inductive CaptureSource
  /-- In the frame of that activation. -/
  | local
  /-- Among the cells the closure running there took along; the name is bound `level` frames out from that activation. -/
  | captured {level : Nat}
  deriving DecidableEq, Repr

/-- A name a lambda takes along. -/
structure Capture where
  name : String
  source : CaptureSource
  deriving DecidableEq, Repr

namespace Code

mutual

/-- A resolved chunk. -/
structure Block where
  pipelines : List Pipeline

/-- A resolved pipeline; its text describes the job it may become. -/
structure Pipeline where
  forms : List Form
  background : Bool
  place : Place
  text : String

/-- A resolved form. -/
structure Form where
  temps : List Assign
  action : Action
  redirs : List Redir
  place : Place

/-- What a form does. -/
inductive Action
  | assign (op : Assign)
  | special (op : Special)
  | call (op : Call)

/-- Values bound to targets by position. -/
structure Assign where
  targets : List Target
  values : List Operand

/-- A target that has been resolved. -/
structure Target where
  ref : Ref
  indices : List Operand
  rest : Bool

/-- A command with a resolved head. -/
structure Call where
  head : Head
  args : List Operand
  opts : List (String × Operand)

/-- How a command runs. -/
inductive Head
  /-- A function bound to a variable. -/
  | function (name : String) (ref : Ref)
  | builtin (command : Builtin)
  /-- A program, searched for when the form runs. -/
  | external (name : String)
  /-- A value computed when the form runs. -/
  | dynamic (head : Operand)

/-- A resolved word. -/
inductive Operand
  | literal (text : String)
  | var (ref : Ref) (explode : Bool)
  | index (base : Operand) (indices : List Operand)
  | list (items : List Operand)
  | map (pairs : List (Operand × Operand))
  | lambda (op : Lambda)
  | capture (body : Block)
  | rescue (body : Block)
  | compound (parts : List Operand)
  | wildcard (pattern : String) (mayMiss : Bool)

/-- A resolved lambda. -/
structure Lambda where
  params : List String
  rest : Option String
  captures : List Capture
  body : Block
  place : Place

/-- A resolved redirection. -/
structure Redir where
  fd : Nat
  mode : RedirMode
  target : RedirTarget

/-- What a descriptor is connected to. -/
inductive RedirTarget
  | path (operand : Operand)
  | fd (source : Nat)
  | close

/-- A special form; its bodies run in the frame of the form. -/
inductive Special
  | branch (branches : List (Operand × Block)) (otherwise : Option Block)
  | whileLoop (condition : Operand) (body : Block) (otherwise : Option Block)
  | forLoop (ref : Ref) (container : Operand) (body : Block) (otherwise : Option Block)
  | attempt (body : Block) (handler : Option Handler) (otherwise finally_ : Option Block)
  | define (ref : Ref) (op : Lambda)
  | conjunction (operands : List Operand)
  | disjunction (operands : List Operand)
  | delete (targets : List Deletion)
  | load (spec : String) (ref : Ref)

/-- The clause that takes over a failure, and the variable that holds it. -/
structure Handler where
  ref : Option Ref
  body : Block

/-- A variable, or an element of its value, to be deleted. -/
structure Deletion where
  ref : Ref
  indices : List Operand

end

/-- The number of arguments a lambda takes, in words. -/
def Lambda.arity (op : Lambda) : String :=
  match op.rest with
  | some _ => s!"{op.params.length} or more"
  | none => toString op.params.length

/-- The empty block. -/
def Block.empty : Block := ⟨[]⟩

/-- Two blocks, one after the other. -/
def Block.append (a b : Block) : Block := ⟨a.pipelines ++ b.pipelines⟩

end Code

end DualShell
