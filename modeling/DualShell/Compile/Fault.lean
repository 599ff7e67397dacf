import DualShell.Source.Basic
import DualShell.Text.Quoted

/-!
# What can be wrong with a program before it runs

Every way in which a program fails to resolve, grouped into seven kinds with a code each. A fault is reported with the
place of the form it was found in.
-/

namespace DualShell

/-- The kinds of fault. -/
inductive CompileKind
  | unresolvedVariable
  | unresolvedNamespace
  | readOnlyVariable
  | malformedTarget
  | badSignature
  | badSpecialForm
  | badRedirection
  deriving DecidableEq, Repr

/-- The code of a kind. -/
def CompileKind.code : CompileKind → String
  | .unresolvedVariable => "E001"
  | .unresolvedNamespace => "E002"
  | .readOnlyVariable => "E003"
  | .malformedTarget => "E004"
  | .badSignature => "E005"
  | .badSpecialForm => "E006"
  | .badRedirection => "E007"

/-- A kind in words. -/
def CompileKind.text : CompileKind → String
  | .unresolvedVariable => "unresolved variable"
  | .unresolvedNamespace => "unresolved namespace"
  | .readOnlyVariable => "read-only variable"
  | .malformedTarget => "malformed assignment target"
  | .badSignature => "bad lambda signature"
  | .badSpecialForm => "bad special form"
  | .badRedirection => "bad redirection"

/-- The causes. -/
inductive CompileFault
  /-- A variable bound nowhere. -/
  | unbound (name : String)
  /-- A namespace that was not imported. -/
  | noNamespace (name : String)
  /-- A write to a fixed variable or to a member of a namespace. -/
  | readOnly (name : String)
  /-- A temporary that is not a plain variable. -/
  | badTemporary (name : String)
  /-- A rest target before the last place. -/
  | restNotLast
  | noTargets
  /-- An index into a variable of the environment. -/
  | indexedEnv (name : String)
  | emptyName
  | badParameter (name : String)
  | duplicateParameter (name : String)
  | restParameterNotLast
  /-- Options given to a special form. -/
  | formOptions (form : String)
  | missingCondition (form : String)
  | missingContainer
  | noLoopVariable
  /-- Something other than a parameterless lambda where a body is wanted. -/
  | notBody (what : String)
  | trailingArguments (form : String)
  | badTryArgument
  | bareTry
  | badFn
  | badFnName (name : String)
  /-- The deletion of a variable that is not bound in the innermost frame. -/
  | notLocal (name : String)
  | badDelBase
  | badDel
  | badUse
  | specNotLiteral
  | noAlias (spec : String)
  | fdRange (fd : Nat)
  /-- A duplication in a mode that only files know. -/
  | fdMode (fd : Nat)
  deriving DecidableEq, Repr

/-- The greatest descriptor a redirection may name. -/
def maxFd : Nat := 1024

namespace CompileFault

/-- The kind of a cause. -/
def kind : CompileFault → CompileKind
  | .unbound _ => .unresolvedVariable
  | .noNamespace _ => .unresolvedNamespace
  | .readOnly _ => .readOnlyVariable
  | .badTemporary _ | .restNotLast | .noTargets | .indexedEnv _ | .emptyName => .malformedTarget
  | .badParameter _ | .duplicateParameter _ | .restParameterNotLast => .badSignature
  | .fdRange _ | .fdMode _ => .badRedirection
  | .formOptions _ | .missingCondition _ | .missingContainer | .noLoopVariable | .notBody _ | .trailingArguments _
  | .badTryArgument | .bareTry | .badFn | .badFnName _ | .notLocal _ | .badDelBase | .badDel | .badUse
  | .specNotLiteral | .noAlias _ => .badSpecialForm

/-- The wording of a cause. -/
def message : CompileFault → String
  | .unbound name => s!"${name}"
  | .noNamespace name => name
  | .readOnly name => s!"${name}"
  | .badTemporary name => s!"temporary assignment to {name} must be a plain variable"
  | .restNotLast => "only the last target may collect the rest"
  | .noTargets => "no targets"
  | .indexedEnv name => s!"cannot index environment variable {name}"
  | .emptyName => "empty variable name"
  | .badParameter name => s!"invalid parameter name {Quoted.double name}"
  | .duplicateParameter name => s!"duplicate parameter {name}"
  | .restParameterNotLast => "rest parameter must be last"
  | .formOptions form => s!"{form} takes no options"
  | .missingCondition form => s!"{form}: missing condition"
  | .missingContainer => "for: missing container"
  | .noLoopVariable => "for: expected a variable name"
  | .notBody what => s!"{what} must be a lambda literal without parameters"
  | .trailingArguments form => s!"{form}: unexpected trailing arguments"
  | .badTryArgument => "try: unexpected argument"
  | .bareTry => "try needs except, else or finally"
  | .badFn => "fn: expected a name and a lambda"
  | .badFnName name => s!"fn: invalid function name {name}"
  | .notLocal name => s!"del: {name} is not a local variable"
  | .badDelBase => "del: expected a variable name"
  | .badDel => "del: expected a variable or element"
  | .badUse => "use: expected a module spec and optional alias"
  | .specNotLiteral => "use: module spec must be literal"
  | .noAlias spec => s!"use: cannot derive an alias from {Quoted.double spec}"
  | .fdRange fd => s!"fd {fd} is out of range (max {maxFd})"
  | .fdMode fd => s!"cannot duplicate fd {fd} in this mode"

end CompileFault

/-- A fault and where it was found. -/
structure CompileError where
  fault : CompileFault
  source : String
  span : Span
  deriving DecidableEq, Repr

/-- The report of a fault. -/
def CompileError.message (e : CompileError) : String :=
  s!"{e.source}:{e.span.start.toNat}-{e.span.stop.toNat}: {e.fault.kind.text}: {e.fault.message} [{e.fault.kind.code}]"

end DualShell
