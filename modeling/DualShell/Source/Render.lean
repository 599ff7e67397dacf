import DualShell.Source.Basic
import DualShell.Text.Quoted

/-!
# Programs as text

Two renderings of a program. `source` writes it the way it would be typed, and names background jobs; `outline` writes
its structure as a nested list of operators and operands, in which a compound word shows its parts and a pattern is told
from a word.
-/

namespace DualShell

/-- The operator of a redirection. -/
def RedirMode.operator : RedirMode → String
  | .read => "<"
  | .write => ">"
  | .append => ">>"
  | .readWrite => "<>"

/-- A parameter as written between bars. -/
def Param.source (p : Param) : String :=
  (if p.rest then "@" else "") ++ p.name

namespace Source

/-- Texts with a blank between them. -/
def spaced (texts : List String) : String :=
  " ".intercalate texts

mutual

/-- A chunk as typed on one line. -/
def Chunk.source : Chunk → String
  | ⟨pipelines⟩ => "; ".intercalate (pipelineSources pipelines)

/-- The texts of pipelines. -/
def pipelineSources : List Pipeline → List String
  | [] => []
  | p :: ps => p.source :: pipelineSources ps

/-- A pipeline as typed. -/
def Pipeline.source : Pipeline → String
  | ⟨forms, background, _⟩ => " | ".intercalate (formSources forms) ++ if background then " &" else ""

/-- The texts of forms. -/
def formSources : List Form → List String
  | [] => []
  | f :: fs => f.source :: formSources fs

/-- A form as typed; a temporary shows its names and values only. -/
def Form.source : Form → String
  | ⟨temps, body, redirs, _⟩ => tempSources temps ++ body.source ++ redirSources redirs

/-- The temporaries of a form, each followed by a blank. -/
def tempSources : List Assignment → String
  | [] => ""
  | ⟨targets, values⟩ :: ts =>
    spaced (targets.map (·.name)) ++ "=" ++ spaced (wordSources values) ++ " " ++ tempSources ts

/-- The body of a form as typed. -/
def Body.source : Body → String
  | .assign ⟨targets, values⟩ => spaced (targetSources targets) ++ " = " ++ spaced (wordSources values)
  | .command ⟨head, args, opts⟩ => spaced (head.source :: wordSources args ++ optSources opts)

/-- The texts of options. -/
def optSources : List Opt → List String
  | [] => []
  | ⟨name, value⟩ :: os => ("&" ++ name ++ "=" ++ value.source) :: optSources os

/-- The texts of assignment targets. -/
def targetSources : List Target → List String
  | [] => []
  | ⟨name, indices, rest⟩ :: ts => ((if rest then "@" else "") ++ name ++ indexSources indices) :: targetSources ts

/-- Each index in brackets. -/
def indexSources : List Word → String
  | [] => ""
  | w :: ws => "[" ++ w.source ++ "]" ++ indexSources ws

/-- The redirections of a form, each after a blank. -/
def redirSources : List Redir → String
  | [] => ""
  | ⟨fd, mode, target⟩ :: rs => " " ++ toString fd.toNat ++ mode.operator ++ target.source ++ redirSources rs

/-- What a redirection names. -/
def RedirTarget.source : RedirTarget → String
  | .path word => word.source
  | .fd n => "&" ++ toString n.toNat
  | .close => "&-"

/-- A word as typed. -/
def Word.source : Word → String
  | .bare s => s
  | .quoted s => Quoted.single s
  | .variable name explode => "$" ++ (if explode then "@" else "") ++ name
  | .index base indices => base.source ++ indexSources indices
  | .list items => "[" ++ spaced (wordSources items) ++ "]"
  | .map pairs => "[" ++ (if pairs.isEmpty then "&" else spaced (pairSources pairs)) ++ "]"
  | .lambda params body =>
    let header := if params.isEmpty then "" else "|" ++ spaced (params.map Param.source) ++ "|"
    "\x7b" ++ header ++ " " ++ body.source ++ " \x7d"
  | .capture body => "(" ++ body.source ++ ")"
  | .rescue body => "?(" ++ body.source ++ ")"
  | .compound parts => String.join (wordSources parts)
  | .wildcard pattern _ => pattern

/-- The texts of words. -/
def wordSources : List Word → List String
  | [] => []
  | w :: ws => w.source :: wordSources ws

/-- The texts of the pairs of a map. -/
def pairSources : List (Word × Word) → List String
  | [] => []
  | (k, v) :: ps => ("&" ++ k.source ++ "=" ++ v.source) :: pairSources ps

end

/-- An operator and its operands in parentheses, the operator followed by a blank even when nothing follows. -/
def group (operator : String) (operands : List String) : String :=
  "(" ++ operator ++ " " ++ spaced operands ++ ")"

mutual

/-- The structure of a chunk; a chunk of one pipeline is that pipeline. -/
def Chunk.outline : Chunk → String
  | ⟨pipelines⟩ =>
    match pipelineOutlines pipelines with
    | [] => "(chunk)"
    | [one] => one
    | many => group "chunk" many

/-- The structures of pipelines. -/
def pipelineOutlines : List Pipeline → List String
  | [] => []
  | p :: ps => p.outline :: pipelineOutlines ps

/-- The structure of a pipeline; a pipeline of one form is that form. -/
def Pipeline.outline : Pipeline → String
  | ⟨forms, background, _⟩ =>
    let inner :=
      match formOutlines forms with
      | [one] => one
      | many => group "pipe" many
    if background then "(bg " ++ inner ++ ")" else inner

/-- The structures of forms. -/
def formOutlines : List Form → List String
  | [] => []
  | f :: fs => f.outline :: formOutlines fs

/-- The structure of a form: redirections outside temporaries outside the body, the last of each outermost. -/
def Form.outline : Form → String
  | ⟨temps, body, redirs, _⟩ => redirOutline redirs (tempOutline temps body.outline)

/-- Wrap temporaries around an inner text. -/
def tempOutline : List Assignment → String → String
  | [], inner => inner
  | ⟨targets, values⟩ :: ts, inner =>
    tempOutline ts ("(with " ++ assignOutline (targetOutlines targets) (wordOutlines values) ++ " " ++ inner ++ ")")

/-- Wrap redirections around an inner text. -/
def redirOutline : List Redir → String → String
  | [], inner => inner
  | ⟨fd, mode, target⟩ :: rs, inner =>
    redirOutline rs
      ("(redir " ++ toString fd.toNat ++ mode.operator ++ " " ++ target.outline ++ " " ++ inner ++ ")")

/-- The structure of what a redirection names. -/
def RedirTarget.outline : RedirTarget → String
  | .path word => word.outline
  | .fd n => "&" ++ toString n.toNat
  | .close => "&-"

/-- An assignment from the texts of its sides. -/
def assignOutline (targets values : List String) : String :=
  "(assign (" ++ spaced targets ++ ") (" ++ spaced values ++ "))"

/-- The structure of the body of a form. -/
def Body.outline : Body → String
  | .assign ⟨targets, values⟩ => assignOutline (targetOutlines targets) (wordOutlines values)
  | .command ⟨head, args, opts⟩ => group "cmd" (head.outline :: wordOutlines args ++ optOutlines opts)

/-- The structures of options. -/
def optOutlines : List Opt → List String
  | [] => []
  | ⟨name, value⟩ :: os => ("(opt " ++ name ++ " " ++ value.outline ++ ")") :: optOutlines os

/-- The structures of targets. -/
def targetOutlines : List Target → List String
  | [] => []
  | ⟨name, indices, rest⟩ :: ts =>
    let base := (if rest then "@" else "") ++ name
    (if indices.isEmpty then base else group "index" (base :: wordOutlines indices)) :: targetOutlines ts

/-- The structure of a word. -/
def Word.outline : Word → String
  | .bare s => s
  | .quoted s => Quoted.double s
  | .variable name explode => (if explode then "$@" else "$") ++ name
  | .index base indices => "(index " ++ base.outline ++ " " ++ spaced (wordOutlines indices) ++ ")"
  | .list items => "(" ++ spaced ("list" :: wordOutlines items) ++ ")"
  | .map pairs => "(" ++ spaced ("map" :: pairOutlines pairs) ++ ")"
  | .lambda params body => "(lambda (" ++ spaced (params.map Param.source) ++ ") " ++ body.outline ++ ")"
  | .capture body => "(capture " ++ body.outline ++ ")"
  | .rescue body => "(catch " ++ body.outline ++ ")"
  | .compound parts => group "concat" (wordOutlines parts)
  | .wildcard pattern mayMiss => (if mayMiss then "(glob? " else "(glob ") ++ pattern ++ ")"

/-- The structures of words. -/
def wordOutlines : List Word → List String
  | [] => []
  | w :: ws => w.outline :: wordOutlines ws

/-- The structures of the pairs of a map. -/
def pairOutlines : List (Word × Word) → List String
  | [] => []
  | (k, v) :: ps => ("(" ++ k.outline ++ " " ++ v.outline ++ ")") :: pairOutlines ps

end

end Source

end DualShell
