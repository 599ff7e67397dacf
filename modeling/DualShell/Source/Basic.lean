/-!
# Programs as read

The tree of a program before any name is resolved. A chunk is a sequence of pipelines, a pipeline a row of forms joined
by channels, a form a command or an assignment with its temporaries and redirections, and a word anything that yields
values. Positions are byte offsets into the text the program was read from.
-/

namespace DualShell

/-- A stretch of program text, from byte `start` up to byte `stop`. -/
structure Span where
  start : UInt64
  stop : UInt64
  deriving DecidableEq, Repr, Inhabited

/-- How a redirection opens its file. -/
inductive RedirMode
  | read
  | write
  | append
  | readWrite
  deriving DecidableEq, Repr

/-- A parameter of a lambda; the rest parameter takes every further argument. -/
structure Param where
  name : String
  rest : Bool
  deriving DecidableEq, Repr

namespace Source

mutual

/-- A program, or a body inside one. -/
structure Chunk where
  pipelines : List Pipeline

/-- Forms joined by channels; a background pipeline runs as a job. -/
structure Pipeline where
  forms : List Form
  background : Bool
  span : Span

/-- One command or assignment, with assignments that last as long as the form and with its redirections. -/
structure Form where
  temps : List Assignment
  body : Body
  redirs : List Redir
  span : Span

/-- What a form does. -/
inductive Body
  | assign (assignment : Assignment)
  | command (command : Command)

/-- A head with arguments and options. -/
structure Command where
  head : Word
  args : List Word
  opts : List Opt

/-- An option with its value. -/
structure Opt where
  name : String
  value : Word

/-- Values bound to targets by position. -/
structure Assignment where
  targets : List Target
  values : List Word

/-- A variable, or a place inside its value; a rest target takes a list. -/
structure Target where
  name : String
  indices : List Word
  rest : Bool

/-- A change of one descriptor. -/
structure Redir where
  fd : UInt32
  mode : RedirMode
  target : RedirTarget

/-- What a descriptor is connected to. -/
inductive RedirTarget
  | path (word : Word)
  | fd (source : UInt32)
  | close

/-- An expression. -/
inductive Word
  /-- A word without quotes. -/
  | bare (text : String)
  /-- A quoted text. -/
  | quoted (text : String)
  /-- A variable; exploding yields the items of a list. -/
  | variable (name : String) (explode : Bool)
  /-- Indices applied one after another. -/
  | index (base : Word) (indices : List Word)
  | list (items : List Word)
  | map (pairs : List (Word × Word))
  | lambda (params : List Param) (body : Chunk)
  /-- The output of a chunk as values. -/
  | capture (body : Chunk)
  /-- The failure of a chunk as a value. -/
  | rescue (body : Chunk)
  /-- Parts whose strings are joined. -/
  | compound (parts : List Word)
  /-- The paths that match a pattern. -/
  | wildcard (pattern : String) (mayMiss : Bool)

end

/-- The text of a word that is written down as it stands, with or without quotes. -/
def Word.literal? : Word → Option String
  | .bare s => some s
  | .quoted s => some s
  | _ => none

end Source

end DualShell
