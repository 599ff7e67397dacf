import DualShell.Builtin.Basic
import DualShell.Value.Basic

/-!
# What builtins take

The interface of a builtin: its parameters, its options with their defaults, and whether it takes any option. Arguments
are checked against it as a whole before the builtin sees them.
-/

namespace DualShell

/-- Whether an argument has to be there. -/
inductive Presence
  | required
  | optional
  /-- Any number of further arguments; comes last. -/
  | variadic
  deriving DecidableEq, Repr

/-- A parameter. -/
structure Parameter where
  name : String
  presence : Presence
  description : String
  deriving DecidableEq, Repr

/-- An option and the value it has if it is not given. -/
structure OptionSpec where
  name : String
  default : Value
  description : String

/-- An interface. -/
structure Schema where
  name : String
  description : String
  params : List Parameter
  opts : List OptionSpec
  /-- Options that are not listed are taken too. -/
  anyOptions : Bool

/-- Arguments, and options in the order they were given. -/
structure Arguments where
  positional : List Value
  opts : List (String × Value)

namespace Arguments

/-- The value of an option: the last one given. -/
def opt? (a : Arguments) (name : String) : Option Value :=
  (a.opts.reverse.find? (·.1 == name)).map (·.2)

/-- The value of an option as text; an absent one is empty. -/
def optText (a : Arguments) (name : String) : Except Cause String :=
  match a.opt? name with
  | some v => v.expectString name
  | none => .ok ""

end Arguments

namespace Schema

/-- The least number of arguments. -/
def fewest (s : Schema) : Nat :=
  (s.params.filter (·.presence == .required)).length

/-- The greatest number of arguments, if there is one. -/
def most (s : Schema) : Option Nat :=
  if s.params.any (·.presence == .variadic) then none else some s.params.length

/-- The numbers of arguments that are taken, in words. -/
def arityText (s : Schema) : String :=
  match s.most with
  | none => s!"{s.fewest} or more"
  | some most => if most == s.fewest then toString s.fewest else s!"{s.fewest} to {most}"

/-- Whether so many arguments are taken. -/
def takes (s : Schema) (count : Nat) : Bool :=
  s.fewest ≤ count &&
    match s.most with
    | none => true
    | some most => count ≤ most

/-- Whether an option is listed. -/
def lists (s : Schema) (name : String) : Bool :=
  s.opts.any (·.name == name)

/-- The first option that is not taken. -/
def refused? (s : Schema) (a : Arguments) : Option String :=
  if s.anyOptions then none else (a.opts.find? fun o => !s.lists o.1).map (·.1)

/-- Add the default of an option that was not given. -/
def addDefault (a : Arguments) (o : OptionSpec) : Arguments :=
  match a.opt? o.name with
  | some _ => a
  | none => { a with opts := a.opts ++ [(o.name, o.default)] }

/-- Check arguments and fill in defaults, in place; the arguments it leaves count even when it fails. -/
def fill (s : Schema) : ExceptT Cause (StateM Arguments) Unit := do
  let a ← get
  if !s.takes a.positional.length then
    throw (.arityMismatch s!"arguments to {s.name}" s.arityText a.positional.length)
  else
    match s.refused? a with
    | some name => throw (.type s!"{s.name} does not take option &{name}")
    | none => set (s.opts.foldl addDefault a)

/-- The arguments a builtin runs with. -/
def apply (s : Schema) (a : Arguments) : Except Cause Arguments :=
  match s.fill.run.run a with
  | (.ok _, a) => .ok a
  | (.error cause, _) => .error cause

/-- What the check leaves of the arguments, and what it says of them. -/
theorem run_fill (s : Schema) (a : Arguments) :
    s.fill.run.run a =
      if !s.takes a.positional.length then
        (.error (.arityMismatch s!"arguments to {s.name}" s.arityText a.positional.length), a)
      else
        match s.refused? a with
        | some name => (.error (.type s!"{s.name} does not take option &{name}"), a)
        | none => (.ok (), s.opts.foldl addDefault a) := by
  unfold fill
  rw [ExceptT.run_bind, StateT.run_bind]
  change StateT.run (ExceptT.run (ite _ _ _)) a = _
  split
  · rfl
  · split <;> rfl

/-- Arguments fail by their number or by an option, or they are those that were given, and defaults. -/
theorem apply_cases (s : Schema) (a : Arguments) :
    s.apply a = .error (.arityMismatch s!"arguments to {s.name}" s.arityText a.positional.length) ∨
      (∃ text, s.apply a = .error (.type text)) ∨ s.apply a = .ok (s.opts.foldl addDefault a) := by
  rw [apply, run_fill]
  cases s.takes a.positional.length with
  | false => exact .inl rfl
  | true =>
    cases s.refused? a with
    | some name => exact .inr (.inl ⟨_, rfl⟩)
    | none => exact .inr (.inr rfl)

/-- A builtin that takes the parameters and options given. -/
def of (command : Builtin) (description : String) (params : List Parameter) (opts : List OptionSpec) : Schema :=
  ⟨command.name, description, params, opts, false⟩

end Schema

/-- The input list that many builtins take in place of what they read. -/
def inputsParameter : Parameter :=
  ⟨"inputs", .optional, "List to iterate instead of stdin"⟩

/-- The option that joins texts. -/
def separatorOption : OptionSpec :=
  ⟨"sep", .string " ", "Separator between arguments"⟩

/-- The interface of each builtin. -/
def Builtin.schema (command : Builtin) : Schema :=
  match command with
  | .all => .of command "Output every input as a value" [inputsParameter] []
  | .bool => .of command "Output the truthiness of a value" [⟨"value", .required, "Value to convert"⟩] []
  | .break_ => .of command "Leave the innermost loop" [] []
  | .continue_ => .of command "Start the next iteration of the innermost loop" [] []
  | .each =>
    .of command "Call a function with each input" [⟨"f", .required, "Function taking one argument"⟩, inputsParameter] []
  | .echo =>
    .of command "Write arguments as text, then a newline" [⟨"args", .variadic, "Values to write"⟩] [separatorOption]
  | .eq => .of command "Whether all arguments are equal" [⟨"values", .variadic, "Values to compare"⟩] []
  | .fail =>
    .of command "Raise an exception with the given reason" [⟨"reason", .required, "Exception value or reason"⟩] []
  | .fromJson => .of command "Output each JSON document in the byte input" [] []
  | .fromLines => .of command "Output each line of byte input as a string" [] []
  | .jobs => .of command "List background jobs" [] [⟨"cleanup", .bool false, "Forget finished jobs first"⟩]
  | .nop => { Schema.of command "Do nothing" [⟨"args", .variadic, "Ignored"⟩] [] with anyOptions := true }
  | .not => .of command "Output the boolean negation of a value" [⟨"value", .required, "Value to negate"⟩] []
  | .notEq => .of command "Whether adjacent arguments all differ" [⟨"values", .variadic, "Values to compare"⟩] []
  | .print => .of command "Write arguments as text" [⟨"args", .variadic, "Values to write"⟩] [separatorOption]
  | .put => .of command "Output arguments as values" [⟨"values", .variadic, "Values to output"⟩] []
  | .return_ => .of command "Return from the innermost function" [] []
  | .slurp => .of command "Output the whole byte input as one string" [] []
  | .toJson => .of command "Write each input as a line of JSON" [inputsParameter] []
  | .toLines => .of command "Write each input as a line of text" [inputsParameter] []
  | .wait =>
    .of command "Wait for background jobs and forward their output"
      [⟨"id", .optional, "Job to wait for; all jobs if omitted"⟩] []

end DualShell
