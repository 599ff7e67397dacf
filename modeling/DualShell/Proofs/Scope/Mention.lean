import DualShell.Compile.Name

/-!
# What a piece of resolved code mentions

The names that a piece of code reaches for while it runs in one activation, in the order in which they stand: variables
of the frame, cells its closure took along, fixed variables, variables it deletes, and lambdas it makes. A variable that
stands where it is changed is mentioned once more as such. The body of a lambda runs in another activation, so a lambda
counts only with what it takes along. `Code.Lambda.Linked` says that inside a lambda, however deep, every name taken
from outside is one that the lambda around it took along, from one frame nearer, and every variable that is changed can
be.
-/

namespace DualShell

/-- Something a piece of code reaches for. -/
inductive Mention
  /-- A variable of the frame. -/
  | local (name : String)
  /-- A cell taken along, whose variable is bound `level` frames out. -/
  | taken (name : String) (level : Nat)
  /-- A fixed variable. -/
  | fixed (name : String)
  /-- A variable of the frame that is deleted. -/
  | drop (name : String)
  /-- A variable that is given a value, changed inside, or deleted. -/
  | change (ref : Ref)
  /-- A lambda that becomes a closure. -/
  | make (op : Code.Lambda)

/-- How many frames out from the activation that makes a closure a name is bound. -/
def CaptureSource.level : CaptureSource → Nat
  | .local => 0
  | @CaptureSource.captured level => level

/-- Where the activation that makes a closure finds a cell for it. -/
def Capture.mention (c : Capture) : Mention :=
  match c.source with
  | .local => .local c.name
  | @CaptureSource.captured level => .taken c.name level

/-- What a variable reaches for. -/
def Ref.mentions : Ref → List Mention
  | .local name => [.local name]
  | @Ref.captured level name => [.taken name level]
  | .builtin name => [.fixed name]
  | .env _ => []
  | .member ns _ => ns.mentions

/-- What a variable reaches for where it is changed. -/
def Ref.changeMentions (ref : Ref) : List Mention := ref.mentions ++ [.change ref]

namespace Code

/-- A lambda is made of the cells it takes along. -/
def Lambda.mentions (op : Lambda) : List Mention :=
  .make op :: op.captures.map Capture.mention

mutual

/-- What a block reaches for. -/
def Block.mentions : Block → List Mention
  | ⟨ps⟩ => pipelinesMentions ps

def pipelinesMentions : List Pipeline → List Mention
  | [] => []
  | p :: ps => p.mentions ++ pipelinesMentions ps

/-- What a pipeline reaches for. -/
def Pipeline.mentions : Pipeline → List Mention
  | ⟨forms, _, _, _⟩ => formsMentions forms

def formsMentions : List Form → List Mention
  | [] => []
  | f :: fs => f.mentions ++ formsMentions fs

/-- What a form reaches for. -/
def Form.mentions : Form → List Mention
  | ⟨temps, action, redirs, _⟩ => redirsMentions redirs ++ assignsMentions temps ++ action.mentions

def assignsMentions : List Assign → List Mention
  | [] => []
  | a :: as => a.mentions ++ assignsMentions as

/-- What an assignment reaches for. -/
def Assign.mentions : Assign → List Mention
  | ⟨targets, values⟩ => operandsMentions values ++ targetsMentions targets

def targetsMentions : List Target → List Mention
  | [] => []
  | ⟨ref, indices, _⟩ :: ts => ref.changeMentions ++ operandsMentions indices ++ targetsMentions ts

/-- What an action reaches for. -/
def Action.mentions : Action → List Mention
  | .assign op => op.mentions
  | .special op => op.mentions
  | .call op => op.mentions

/-- What a command reaches for. -/
def Call.mentions : Call → List Mention
  | ⟨head, args, opts⟩ => head.mentions ++ operandsMentions args ++ optsMentions opts

/-- What a head reaches for. -/
def Head.mentions : Head → List Mention
  | .function _ ref => ref.mentions
  | .builtin _ => []
  | .external _ => []
  | .dynamic op => op.mentions

def optsMentions : List (String × Operand) → List Mention
  | [] => []
  | (_, op) :: os => op.mentions ++ optsMentions os

/-- What an operand reaches for. -/
def Operand.mentions : Operand → List Mention
  | .literal _ => []
  | .var ref _ => ref.mentions
  | .index base indices => base.mentions ++ operandsMentions indices
  | .list items => operandsMentions items
  | .map pairs => pairsMentions pairs
  | .lambda op => op.mentions
  | .capture body => body.mentions
  | .rescue body => body.mentions
  | .compound parts => operandsMentions parts
  | .wildcard _ _ => []

def operandsMentions : List Operand → List Mention
  | [] => []
  | op :: ops => op.mentions ++ operandsMentions ops

def pairsMentions : List (Operand × Operand) → List Mention
  | [] => []
  | (k, v) :: ps => k.mentions ++ v.mentions ++ pairsMentions ps

def redirsMentions : List Redir → List Mention
  | [] => []
  | ⟨_, _, target⟩ :: rs => target.mentions ++ redirsMentions rs

/-- What the target of a redirection reaches for. -/
def RedirTarget.mentions : RedirTarget → List Mention
  | .path op => op.mentions
  | .fd _ => []
  | .close => []

/-- What a special form reaches for. -/
def Special.mentions : Special → List Mention
  | .branch branches otherwise => branchesMentions branches ++ optionalMentions otherwise
  | .whileLoop condition body otherwise => condition.mentions ++ body.mentions ++ optionalMentions otherwise
  | .forLoop ref container body otherwise =>
    container.mentions ++ ref.changeMentions ++ body.mentions ++ optionalMentions otherwise
  | .attempt body handler otherwise finally_ =>
    body.mentions ++ handlerMentions handler ++ optionalMentions otherwise ++ optionalMentions finally_
  | .define ref op => ref.changeMentions ++ op.mentions
  | .conjunction ops => operandsMentions ops
  | .disjunction ops => operandsMentions ops
  | .delete targets => deletionsMentions targets
  | .load _ ref => ref.changeMentions

def branchesMentions : List (Operand × Block) → List Mention
  | [] => []
  | (condition, body) :: bs => condition.mentions ++ body.mentions ++ branchesMentions bs

def optionalMentions : Option Block → List Mention
  | none => []
  | some b => b.mentions

def handlerMentions : Option Handler → List Mention
  | none => []
  | some ⟨ref, body⟩ => (match ref with | none => [] | some ref => ref.changeMentions) ++ body.mentions

def deletionsMentions : List Deletion → List Mention
  | [] => []
  | ⟨ref, indices⟩ :: ds =>
    (if indices.isEmpty then
        match ref with
        | .local name => [.drop name, .change ref]
        | _ => [.change ref]
      else ref.changeMentions ++ operandsMentions indices) ++ deletionsMentions ds

end

end Code

/-- A name reached for in the body of a lambda that took captures along: one from outside is among them, and was bound
one frame nearer for the activation that made the closure. What is changed is neither fixed nor a member of a namespace.
-/
def Mention.Within (captures : List Capture) : Mention → Prop
  | .taken name level => ∃ c ∈ captures, c.name = name ∧ level = c.source.level + 1
  | .fixed name => isFixedVariable name = true
  | .change ref => ref.isWritable = true
  | _ => True

/-- In a lambda, and in every lambda inside it, every name taken from outside was taken along, and what is changed can be. -/
inductive Code.Lambda.Linked : Code.Lambda → Prop
  | intro {op : Code.Lambda} (nodup : (op.captures.map (·.name)).Nodup)
      (within : ∀ m ∈ op.body.mentions, m.Within op.captures)
      (inner : ∀ inside, Mention.make inside ∈ op.body.mentions → inside.Linked) : op.Linked

namespace Code.Lambda.Linked

/-- No name is taken along twice. -/
theorem nodup {op : Code.Lambda} : op.Linked → (op.captures.map (·.name)).Nodup
  | .intro h _ _ => h

/-- What the body of a closure mentions is within what it takes along. -/
theorem within {op : Code.Lambda} : op.Linked → ∀ m ∈ op.body.mentions, m.Within op.captures
  | .intro _ h _ => h

/-- Closures within a closure are in order if it is. -/
theorem inner {op : Code.Lambda} : op.Linked → ∀ inside, Mention.make inside ∈ op.body.mentions → inside.Linked
  | .intro _ _ h => h

end Code.Lambda.Linked

end DualShell
