import DualShell.Compile.Fault
import DualShell.Compile.Scope

/-!
# Resolving names

How a name is understood where it is read, where it is assigned and where it heads a command. A name may carry a prefix
up to its first colon; a colon at either end is part of the name. Resolution threads a scope, and the scope it reaches
counts even when it fails.
-/

namespace DualShell

/-- A fault and the form it was found in, before the text it belongs to is named. -/
structure Misplaced where
  fault : CompileFault
  span : Span
  deriving DecidableEq, Repr

/-- Resolution in a scope. -/
abbrev Compile := ExceptT Misplaced (StateM Scope)

namespace Compile

/-- Fail at a form. -/
def fault {α : Type} (span : Span) (f : CompileFault) : Compile α :=
  throw ⟨f, span⟩

/-- Look a name up from the innermost frame. -/
def resolve (name : String) : Compile (Option Ref) :=
  fun s => let (r, s) := s.resolve name; (.ok r, s)

/-- Look a name up from the frame around the innermost one. -/
def resolveUp (name : String) : Compile (Option Ref) :=
  fun s => let (r, s) := s.resolveUp name; (.ok r, s)

/-- Bind a name in the innermost frame. -/
def declare (name : String) : Compile Unit :=
  fun s => (.ok (), s.declare name)

/-- Whether a name is bound in the innermost frame. -/
def isLocal (name : String) : Compile Bool :=
  fun s => (.ok (s.isLocal name), s)

/-- Forget a name of the innermost frame; whether it was there. -/
def undeclare (name : String) : Compile Bool :=
  fun s => (.ok (s.isLocal name), s.undeclare name)

end Compile

/-- The characters before and after the first colon, if there is one. -/
def splitColon : List Char → Option (List Char × List Char)
  | [] => none
  | c :: cs =>
    if c == ':' then some ([], cs)
    else
      match splitColon cs with
      | none => none
      | some (front, back) => some (c :: front, back)

/-- A prefix and the rest of a name, neither of them empty. -/
def splitName (name : String) : Option (String × String) :=
  match splitColon name.toList with
  | some (front, back) =>
    if front.isEmpty || back.isEmpty then none else some (String.ofList front, String.ofList back)
  | none => none

/-- What a reference needs to be written: it is neither fixed nor a member of a namespace. -/
def Ref.isWritable : Ref → Bool
  | .builtin _ => false
  | .member _ _ => false
  | _ => true

open Compile

/-- Understand a name where it is read. -/
def resolveRead (span : Span) (name : String) : Compile Ref := do
  match splitName name with
  | some (front, rest) =>
    if front == "local" then
      if ← isLocal rest then pure (.local rest) else fault span (.unbound name)
    else if front == "up" then
      match ← resolveUp rest with
      | some ref => pure ref
      | none => fault span (.unbound name)
    else if front == "E" then pure (.env rest)
    else if front == "builtin" && isFixedVariable rest then pure (.builtin rest)
    else
      match ← resolve (front ++ ":") with
      | some ref => pure (.member ref rest)
      | none => fault span (.noNamespace (front ++ ":"))
  | none =>
    match ← resolve name with
    | some ref => pure ref
    | none => if isFixedVariable name then pure (.builtin name) else fault span (.unbound name)

/-- Refuse a reference that cannot be written. -/
def checkWritable (span : Span) (ref : Ref) : Compile Unit :=
  if ref.isWritable then pure () else fault span (.readOnly ref.name)

/-- Understand a name where it is assigned: the binding a read would find, or a new one in the innermost frame. -/
def resolveTarget (span : Span) (name : String) : Compile Ref := do
  if name.isEmpty || name == "~" then fault span .emptyName
  else
    match splitName name with
    | some (front, rest) =>
      if front == "local" then do
        declare rest
        pure (.local rest)
      else if front == "E" then pure (.env rest)
      else do
        let ref ← resolveRead span name
        checkWritable span ref
        pure ref
    | none =>
      match ← resolve name with
      | some ref => pure ref
      | none =>
        if isFixedVariable name then fault span (.readOnly name)
        else do
          declare name
          pure (.local name)

/-- Understand a name at the head of a command: an external program if it says so or holds a slash, then a function, then a
builtin, else an external program. -/
def resolveHead (span : Span) (name : String) : Compile Code.Head := do
  match name.toList with
  | 'e' :: ':' :: program => pure (.external (String.ofList program))
  | cs =>
    if cs.contains '/' then pure (.external name)
    else if (splitName name).isSome then return .function name (← resolveRead span (name ++ "~"))
    else
      match ← resolve (name ++ "~") with
      | some ref => pure (.function name ref)
      | none =>
        match Builtin.ofName? name with
        | some command => pure (.builtin command)
        | none => pure (.external name)

end DualShell
