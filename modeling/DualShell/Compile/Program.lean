import DualShell.Compile.Name
import DualShell.Source.Render

/-!
# Resolving programs

From programs as read to resolved programs. A program is walked in the order it runs, so that a name has to be assigned
in the text before it is read: redirections, temporaries and then the body of a form; values before targets; the head
before the arguments. Special forms have a grammar of their own over the words that follow their name, in which bodies
are lambdas without parameters.
-/

namespace DualShell

open Source Compile

/-- The names of a parameter list so far. -/
structure Signature where
  params : List String
  rest : Option String

/-- Check a parameter list: names are present, plain and different, and only the last may take the rest. -/
def signature (span : Span) : List String → List Param → Compile Signature
  | seen, [] => pure ⟨seen, none⟩
  | seen, p :: ps =>
    if p.name.isEmpty || p.name.toList.contains ':' then fault span (.badParameter p.name)
    else if seen.contains p.name then fault span (.duplicateParameter p.name)
    else if p.rest then
      if ps.isEmpty then pure ⟨seen, some p.name⟩ else fault span .restParameterNotLast
    else signature span (seen ++ [p.name]) ps

/-- Refuse a descriptor out of range. -/
def checkFd (span : Span) (fd : UInt32) : Compile Unit :=
  if fd.toNat ≤ maxFd then pure () else fault span (.fdRange fd.toNat)

/-- Run a resolution inside a new frame that binds the given names; the frame is closed whether it succeeds or not. -/
def inFrame {α : Type} (names : List String) (body : Compile α) : Compile (α × List Capture) :=
  fun s =>
    let (result, s) := body (names.foldl Scope.declare s.push)
    let (captures, s) := s.pop
    (result.map (·, captures), s)

/-- The text after the last colon or slash. -/
def lastSegment (spec : String) : String :=
  String.ofList (spec.toList.reverse.takeWhile fun c => c != ':' && c != '/').reverse

/-- A name without the prefix that says it is bound here. -/
def withoutLocal (name : String) : String :=
  match name.toList with
  | 'l' :: 'o' :: 'c' :: 'a' :: 'l' :: ':' :: rest => String.ofList rest
  | _ => name

/-- The special forms. -/
inductive SpecialForm
  | branch
  | whileLoop
  | forLoop
  | attempt
  | define
  | conjunction
  | disjunction
  | delete
  | load
  deriving DecidableEq, Repr

/-- The word that starts a special form. -/
def SpecialForm.name : SpecialForm → String
  | .branch => "if"
  | .whileLoop => "while"
  | .forLoop => "for"
  | .attempt => "try"
  | .define => "fn"
  | .conjunction => "and"
  | .disjunction => "or"
  | .delete => "del"
  | .load => "use"

/-- Every special form. -/
def SpecialForm.every : List SpecialForm :=
  [.branch, .whileLoop, .forLoop, .attempt, .define, .conjunction, .disjunction, .delete, .load]

/-- The special form a word starts. -/
def SpecialForm.ofName? (s : String) : Option SpecialForm :=
  every.find? (·.name == s)

/-- The module spec and the variable of an import, from the words that follow its name. -/
def compileUse (span : Span) (args : List Word) : Compile Code.Special := do
  let (spec, alias_) ← match args with
    | [spec] => pure (spec.literal?, none)
    | [spec, .bare alias_] => pure (spec.literal?, some alias_)
    | _ => fault span .badUse
  match spec with
  | none => fault span .specNotLiteral
  | some spec =>
    let alias_ := alias_.getD (lastSegment spec)
    if alias_.isEmpty then fault span (.noAlias spec)
    else
      declare (alias_ ++ ":")
      pure (.load spec (.local (alias_ ++ ":")))

/-- Refuse a rest target before the last place, and an assignment without targets. -/
def checkTargets (span : Span) (targets : List Target) : Compile Unit := do
  let rests := (targets.filter (·.rest)).length
  if rests > 1 || (rests == 1 && !(targets.getLast?.any (·.rest))) then fault span .restNotLast
  else if targets.isEmpty then fault span .noTargets
  else pure ()

/-- Refuse a reference to the environment under an index. -/
def checkIndexable (span : Span) (name : String) : Ref → Compile Unit
  | .env _ => fault span (.indexedEnv name)
  | _ => pure ()

/-- Refuse a temporary that collects the rest or has an index. -/
def checkTemporary (span : Span) (targets : List Target) : Compile Unit :=
  match targets.find? (fun t => t.rest || !t.indices.isEmpty) with
  | some t => fault span (.badTemporary t.name)
  | none => pure ()

/-- Whether a word is a given keyword. -/
def Source.Word.isKeyword (w : Word) (keyword : String) : Bool :=
  match w with
  | .bare s => s == keyword
  | _ => false

/-- Whether a word starts the handler of a try form. -/
def Source.Word.isHandlerKeyword (w : Word) : Bool :=
  w.isKeyword "except" || w.isKeyword "catch"

/-- A lambda from its parameters and the resolution of its body, which runs in a frame of its own. -/
def lambdaWith (src : String) (span : Span) (params : List Param) (body : Compile Code.Block) : Compile Code.Lambda := do
  let sig ← signature span [] params
  let (body, captures) ← inFrame (sig.params ++ sig.rest.toList) body
  return ⟨sig.params, sig.rest, captures, body, ⟨src, span⟩⟩

/-- The clauses of a try form. -/
structure Clauses where
  handler : Option Code.Handler
  otherwise : Option Code.Block
  finally_ : Option Code.Block

mutual

/-- Resolve a chunk. -/
def compileChunk (src : String) : Chunk → Compile Code.Block
  | ⟨pipelines⟩ => do return ⟨← compilePipelines src pipelines⟩

/-- Resolve pipelines in order. -/
def compilePipelines (src : String) : List Pipeline → Compile (List Code.Pipeline)
  | [] => pure []
  | p :: ps => do
    let p ← compilePipeline src p
    return p :: (← compilePipelines src ps)

/-- Resolve a pipeline. -/
def compilePipeline (src : String) : Pipeline → Compile Code.Pipeline
  | ⟨forms, background, span⟩ => do
    let fs ← compileForms src forms
    return ⟨fs, background, ⟨src, span⟩, (⟨forms, background, span⟩ : Pipeline).source⟩

/-- Resolve forms in order. -/
def compileForms (src : String) : List Form → Compile (List Code.Form)
  | [] => pure []
  | f :: fs => do
    let f ← compileForm src f
    return f :: (← compileForms src fs)

/-- Resolve a form: redirections, temporaries, body. -/
def compileForm (src : String) : Form → Compile Code.Form
  | ⟨temps, body, redirs, span⟩ => do
    let redirs ← compileRedirs src span redirs
    let temps ← compileTemps src span temps
    let action ← compileBody src span body
    return ⟨temps, action, redirs, ⟨src, span⟩⟩

/-- Resolve redirections in order. -/
def compileRedirs (src : String) (span : Span) : List Redir → Compile (List Code.Redir)
  | [] => pure []
  | ⟨fd, mode, target⟩ :: rs => do
    checkFd span fd
    let target ← compileRedirTarget src span mode target
    return ⟨fd.toNat, mode, target⟩ :: (← compileRedirs src span rs)

/-- Resolve what a redirection names; only files are opened for appending or for both directions. -/
def compileRedirTarget (src : String) (span : Span) (mode : RedirMode) : RedirTarget → Compile Code.RedirTarget
  | .path word => do return .path (← compileWord src span word)
  | .fd n => do
    checkFd span n
    if mode == .append || mode == .readWrite then fault span (.fdMode n.toNat) else pure (.fd n.toNat)
  | .close => pure .close

/-- Resolve temporaries in order; they bind plain variables. -/
def compileTemps (src : String) (span : Span) : List Assignment → Compile (List Code.Assign)
  | [] => pure []
  | a :: rest => do
    checkTemporary span a.targets
    let a ← compileAssign src span a
    return a :: (← compileTemps src span rest)

/-- Resolve an assignment: its values before its targets. -/
def compileAssign (src : String) (span : Span) : Assignment → Compile Code.Assign
  | ⟨targets, values⟩ => do
    let values ← compileWords src span values
    checkTargets span targets
    let targets ← compileTargets src span targets
    return ⟨targets, values⟩

/-- Resolve targets in order. -/
def compileTargets (src : String) (span : Span) : List Target → Compile (List Code.Target)
  | [] => pure []
  | ⟨name, [], rest⟩ :: ts => do
    let ref ← resolveTarget span name
    return ⟨ref, [], rest⟩ :: (← compileTargets src span ts)
  | ⟨name, indices, rest⟩ :: ts => do
    let ref ← resolveRead span name
    checkWritable span ref
    checkIndexable span name ref
    let indices ← compileWords src span indices
    return ⟨ref, indices, rest⟩ :: (← compileTargets src span ts)

/-- Resolve the body of a form. -/
def compileBody (src : String) (span : Span) : Body → Compile Code.Action
  | .assign a => do return .assign (← compileAssign src span a)
  | .command c => compileCommand src span c

/-- Resolve a command: a special form if a bare head names one. -/
def compileCommand (src : String) (span : Span) : Command → Compile Code.Action
  | ⟨.bare name, args, opts⟩ => do
    match SpecialForm.ofName? name with
    | some form =>
      if !opts.isEmpty then fault span (.formOptions form.name)
      else
        match form with
        | .branch => do
          let (branches, otherwise) ← compileBranches src span args
          return .special (.branch branches otherwise)
        | .whileLoop => do return .special (← compileWhile src span args)
        | .forLoop => do return .special (← compileFor src span args)
        | .attempt => do return .special (← compileTry src span args)
        | .define => do return .special (← compileFn src span args)
        | .conjunction => do return .special (.conjunction (← compileWords src span args))
        | .disjunction => do return .special (.disjunction (← compileWords src span args))
        | .delete => do return .special (.delete (← compileDeletions src span args))
        | .load => do return .special (← compileUse span args)
    | none =>
      let head ← resolveHead span name
      let args ← compileWords src span args
      let opts ← compileOpts src span opts
      return .call ⟨head, args, opts⟩
  | ⟨.quoted name, args, opts⟩ => do
    let head ← resolveHead span name
    let args ← compileWords src span args
    let opts ← compileOpts src span opts
    return .call ⟨head, args, opts⟩
  | ⟨head, args, opts⟩ => do
    let head ← compileWord src span head
    let args ← compileWords src span args
    let opts ← compileOpts src span opts
    return .call ⟨.dynamic head, args, opts⟩

/-- Resolve options in order. -/
def compileOpts (src : String) (span : Span) : List Opt → Compile (List (String × Code.Operand))
  | [] => pure []
  | ⟨name, value⟩ :: os => do
    let value ← compileWord src span value
    return (name, value) :: (← compileOpts src span os)

/-- Resolve words in order. -/
def compileWords (src : String) (span : Span) : List Word → Compile (List Code.Operand)
  | [] => pure []
  | w :: ws => do
    let w ← compileWord src span w
    return w :: (← compileWords src span ws)

/-- Resolve the pairs of a map in order, each key before its value. -/
def compilePairs (src : String) (span : Span) : List (Word × Word) → Compile (List (Code.Operand × Code.Operand))
  | [] => pure []
  | (k, v) :: ps => do
    let k ← compileWord src span k
    let v ← compileWord src span v
    return (k, v) :: (← compilePairs src span ps)

/-- Resolve a word; a compound of one part is that part. -/
def compileWord (src : String) (span : Span) : Word → Compile Code.Operand
  | .bare s => pure (.literal s)
  | .quoted s => pure (.literal s)
  | .variable name explode => do return .var (← resolveRead span name) explode
  | .index base indices => do
    let base ← compileWord src span base
    return .index base (← compileWords src span indices)
  | .list items => do return .list (← compileWords src span items)
  | .map pairs => do return .map (← compilePairs src span pairs)
  | .lambda params body => do return .lambda (← lambdaWith src span params (compileChunk src body))
  | .capture body => do return .capture (← compileChunk src body)
  | .rescue body => do return .rescue (← compileChunk src body)
  | .compound [part] => compileWord src span part
  | .compound parts => do return .compound (← compileWords src span parts)
  | .wildcard pattern mayMiss => pure (.wildcard pattern mayMiss)

/-- Resolve the body of a special form, in the frame of the form. -/
def compileInline (src : String) (span : Span) (what : String) : Word → Compile Code.Block
  | .lambda [] body => compileChunk src body
  | _ => fault span (.notBody what)

/-- Conditions with their bodies, and the body that runs when no condition holds. -/
def compileBranches (src : String) (span : Span) :
    List Word → Compile (List (Code.Operand × Code.Block) × Option Code.Block)
  | [] => fault span (.missingCondition "if")
  | [condition] => do
    let _ ← compileWord src span condition
    fault span (.notBody "if body")
  | [condition, body] => do
    let condition ← compileWord src span condition
    let body ← compileInline src span "if body" body
    pure ([(condition, body)], none)
  | condition :: body :: next :: rest => do
    let condition ← compileWord src span condition
    let body ← compileInline src span "if body" body
    if next.isKeyword "elif" then
      let (branches, otherwise) ← compileBranches src span rest
      pure ((condition, body) :: branches, otherwise)
    else if next.isKeyword "else" then
      match rest with
      | [] => fault span (.notBody "else body")
      | otherwise :: rest =>
        let otherwise ← compileInline src span "else body" otherwise
        if rest.isEmpty then pure ([(condition, body)], some otherwise)
        else fault span (.trailingArguments "if")
    else fault span (.trailingArguments "if")

/-- Nothing, or the body of an else clause. -/
def compileElse (src : String) (span : Span) (form : String) : List Word → Compile (Option Code.Block)
  | [] => pure none
  | [keyword, body] =>
    if keyword.isKeyword "else" then do return some (← compileInline src span "else body" body)
    else fault span (.trailingArguments form)
  | _ => fault span (.trailingArguments form)

/-- The words of a while loop. -/
def compileWhile (src : String) (span : Span) : List Word → Compile Code.Special
  | [] => fault span (.missingCondition "while")
  | [condition] => do
    let _ ← compileWord src span condition
    fault span (.notBody "while body")
  | condition :: body :: rest => do
    let condition ← compileWord src span condition
    let body ← compileInline src span "while body" body
    return .whileLoop condition body (← compileElse src span "while" rest)

/-- The words of a for loop: the container is resolved before the variable is bound. -/
def compileFor (src : String) (span : Span) : List Word → Compile Code.Special
  | [.bare _] => fault span .missingContainer
  | [.bare name, container] => do
    let _ ← compileWord src span container
    let _ ← resolveTarget span name
    fault span (.notBody "for body")
  | .bare name :: container :: body :: rest => do
    let container ← compileWord src span container
    let ref ← resolveTarget span name
    let body ← compileInline src span "for body" body
    return .forLoop ref container body (← compileElse src span "for" rest)
  | _ => fault span .noLoopVariable

/-- The words of a try form: its body, then clauses in a fixed order of which at least one is there. -/
def compileTry (src : String) (span : Span) : List Word → Compile Code.Special
  | [] => fault span (.notBody "try body")
  | body :: rest => do
    let body ← compileInline src span "try body" body
    let clauses ← compileClauses src span 0 rest
    if rest.isEmpty then fault span .bareTry
    else return .attempt body clauses.handler clauses.otherwise clauses.finally_

/-- The clauses of a try form from a stage on: stage 0 admits a handler, stages up to 1 an else clause, stages up to 2 a
finally clause. A bare word after the keyword of a handler is its variable. -/
def compileClauses (src : String) (span : Span) (stage : Nat) : List Word → Compile Clauses
  | [] => pure ⟨none, none, none⟩
  | [keyword] =>
    if keyword.isHandlerKeyword && stage < 1 then fault span (.notBody "except body")
    else if keyword.isKeyword "else" && stage < 2 then fault span (.notBody "else body")
    else if keyword.isKeyword "finally" && stage < 3 then fault span (.notBody "finally body")
    else fault span .badTryArgument
  | keyword :: next :: rest =>
    if keyword.isHandlerKeyword && stage < 1 then
      match next, rest with
      | .bare name, [] => do
        let _ ← resolveTarget span name
        fault span (.notBody "except body")
      | .bare name, body :: rest => do
        let ref ← resolveTarget span name
        let body ← compileInline src span "except body" body
        let clauses ← compileClauses src span 1 rest
        return { clauses with handler := some ⟨some ref, body⟩ }
      | body, rest => do
        let body ← compileInline src span "except body" body
        let clauses ← compileClauses src span 1 rest
        return { clauses with handler := some ⟨none, body⟩ }
    else if keyword.isKeyword "else" && stage < 2 then do
      let body ← compileInline src span "else body" next
      let clauses ← compileClauses src span 2 rest
      return { clauses with otherwise := some body }
    else if keyword.isKeyword "finally" && stage < 3 then do
      let body ← compileInline src span "finally body" next
      let clauses ← compileClauses src span 3 rest
      return { clauses with finally_ := some body }
    else fault span .badTryArgument

/-- The words of a definition: the function is bound before its body is resolved, so that it can call itself. -/
def compileFn (src : String) (span : Span) : List Word → Compile Code.Special
  | [.bare name, .lambda params body] => do
    if name.toList.contains ':' then fault span (.badFnName name)
    else
      declare (name ++ "~")
      return .define (.local (name ++ "~")) (← lambdaWith src span params (compileChunk src body))
  | _ => fault span .badFn

/-- The words of a deletion, in order: variables of the innermost frame, and elements. -/
def compileDeletions (src : String) (span : Span) : List Word → Compile (List Code.Deletion)
  | [] => pure []
  | .bare name :: rest => do
    if ← undeclare (withoutLocal name) then
      return ⟨.local (withoutLocal name), []⟩ :: (← compileDeletions src span rest)
    else fault span (.notLocal name)
  | .index (.bare name) indices :: rest => do
    let ref ← resolveRead span name
    checkWritable span ref
    let indices ← compileWords src span indices
    return ⟨ref, indices⟩ :: (← compileDeletions src span rest)
  | .index _ _ :: _ => fault span .badDelBase
  | _ :: _ => fault span .badDel

end

/-- Resolve a program of a named text in a scope; the scope it leaves counts even when it fails. -/
def Source.Chunk.compile (chunk : Chunk) (src : String) (scope : Scope) : Except CompileError Code.Block × Scope :=
  match (compileChunk src chunk).run.run scope with
  | (.ok block, scope) => (.ok block, scope)
  | (.error e, scope) => (.error ⟨e.fault, src, e.span⟩, scope)

end DualShell
