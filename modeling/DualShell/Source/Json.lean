import DualShell.Source.Basic
import DualShell.Json.Reader

/-!
# Programs as JSON

The form in which a program travels between processes. A record is an object with one member per field; an alternative
with a payload is an object with one member named after it, a plain alternative its name. Reading is more liberal than
writing: members may come in any order, unknown members are passed over, fields with a default may be missing, and a
record may be given as an array of its fields. A repeated field and a wrong type are refused, as is nesting beyond a
limit: every reader takes the depth that is left and gives the parts one level less.
-/

namespace DualShell.Source

/-! ## Writing -/

/-- A record. -/
def record (fields : List (String × Json)) : Json :=
  .object fields

/-- An alternative with a payload. -/
def tagged (tag : String) (payload : Json) : Json :=
  .object [(tag, payload)]

/-- A natural number. -/
def ofNat (n : Nat) : Json :=
  .number (.integer n)

end Source

open Source

/-- A position as JSON. -/
def Span.toJson (s : Span) : Json :=
  record [("start", ofNat s.start.toNat), ("end", ofNat s.stop.toNat)]

/-- The name of a redirection mode. -/
def RedirMode.tag : RedirMode → String
  | .read => "read"
  | .write => "write"
  | .append => "append"
  | .readWrite => "read_write"

/-- A parameter as JSON. -/
def Param.toJson (p : Param) : Json :=
  record [("name", .string p.name), ("rest", .bool p.rest)]

namespace Source

mutual

/-- A chunk as JSON. -/
def Chunk.toJson : Chunk → Json
  | ⟨pipelines⟩ => record [("pipelines", .array (pipelinesToJson pipelines))]

/-- Pipelines as JSON. -/
def pipelinesToJson : List Pipeline → List Json
  | [] => []
  | p :: ps => p.toJson :: pipelinesToJson ps

/-- A pipeline as JSON. -/
def Pipeline.toJson : Pipeline → Json
  | ⟨forms, background, span⟩ =>
    record [("forms", .array (formsToJson forms)), ("background", .bool background), ("span", span.toJson)]

/-- Forms as JSON. -/
def formsToJson : List Form → List Json
  | [] => []
  | f :: fs => f.toJson :: formsToJson fs

/-- A form as JSON. -/
def Form.toJson : Form → Json
  | ⟨temps, body, redirs, span⟩ =>
    record [("temp_assigns", .array (assignmentsToJson temps)), ("body", body.toJson),
      ("redirs", .array (redirsToJson redirs)), ("span", span.toJson)]

/-- The body of a form as JSON. -/
def Body.toJson : Body → Json
  | .assign a => tagged "assign" a.toJson
  | .command c => tagged "command" c.toJson

/-- A command as JSON. -/
def Command.toJson : Command → Json
  | ⟨head, args, opts⟩ =>
    record [("head", head.toJson), ("args", .array (wordsToJson args)), ("opts", .array (optsToJson opts))]

/-- Options as JSON. -/
def optsToJson : List Opt → List Json
  | [] => []
  | ⟨name, value⟩ :: os => record [("name", .string name), ("value", value.toJson)] :: optsToJson os

/-- An assignment as JSON. -/
def Assignment.toJson : Assignment → Json
  | ⟨targets, values⟩ => record [("targets", .array (targetsToJson targets)), ("values", .array (wordsToJson values))]

/-- Assignments as JSON. -/
def assignmentsToJson : List Assignment → List Json
  | [] => []
  | a :: as => a.toJson :: assignmentsToJson as

/-- Targets as JSON. -/
def targetsToJson : List Target → List Json
  | [] => []
  | ⟨name, indices, rest⟩ :: ts =>
    record [("name", .string name), ("indices", .array (wordsToJson indices)), ("rest", .bool rest)] :: targetsToJson ts

/-- Redirections as JSON. -/
def redirsToJson : List Redir → List Json
  | [] => []
  | ⟨fd, mode, target⟩ :: rs =>
    record [("fd", ofNat fd.toNat), ("mode", .string mode.tag), ("target", target.toJson)] :: redirsToJson rs

/-- What a redirection names, as JSON. -/
def RedirTarget.toJson : RedirTarget → Json
  | .path word => tagged "path" word.toJson
  | .fd n => tagged "fd" (ofNat n.toNat)
  | .close => .string "close"

/-- A word as JSON. -/
def Word.toJson : Word → Json
  | .bare s => tagged "bareword" (.string s)
  | .quoted s => tagged "quoted" (.string s)
  | .variable name explode => tagged "variable" (record [("name", .string name), ("explode", .bool explode)])
  | .index base indices => tagged "index" (record [("base", base.toJson), ("indices", .array (wordsToJson indices))])
  | .list items => tagged "list" (.array (wordsToJson items))
  | .map pairs => tagged "map" (.array (pairsToJson pairs))
  | .lambda params body =>
    tagged "lambda" (record [("params", .array (params.map Param.toJson)), ("body", body.toJson)])
  | .capture body => tagged "output_capture" body.toJson
  | .rescue body => tagged "exception_capture" body.toJson
  | .compound parts => tagged "compound" (.array (wordsToJson parts))
  | .wildcard pattern mayMiss =>
    tagged "wildcard" (record [("pattern", .string pattern), ("nomatch_ok", .bool mayMiss)])

/-- Words as JSON. -/
def wordsToJson : List Word → List Json
  | [] => []
  | w :: ws => w.toJson :: wordsToJson ws

/-- The pairs of a map as JSON. -/
def pairsToJson : List (Word × Word) → List Json
  | [] => []
  | (k, v) :: ps => .array [k.toJson, v.toJson] :: pairsToJson ps

end

/-! ## Reading -/

/-- The members of a name among the members of an object: none, the one, or a refusal when there are several. -/
def field? (members : List (String × Json)) (name : String) : Option (Option Json) :=
  match members.filter (·.1 == name) with
  | [] => some none
  | [m] => some (some m.2)
  | _ => none

/-- The fields of a record, in the order of `names`: from an object by name, from an array by place. -/
def fields? (names : List String) : Json → Option (List (Option Json))
  | .object members => names.mapM (field? members)
  | .array items =>
    if items.length ≤ names.length then
      some (items.map some ++ List.replicate (names.length - items.length) none)
    else none
  | _ => none

/-- The alternative and the payload of a tagged value; a plain name has no payload. -/
def variant? : Json → Option (String × Option Json)
  | .object [(tag, payload)] => some (tag, some payload)
  | .string tag => some (tag, none)
  | _ => none

/-- A string. -/
def text? : Json → Option String
  | .string s => some s
  | _ => none

/-- A truth value. -/
def flag? : Json → Option Bool
  | .bool b => some b
  | _ => none

/-- A natural number below a bound. -/
def natBelow? (bound : Nat) : Json → Option Nat
  | .number (.integer i) => if 0 ≤ i && i.toNat < bound then some i.toNat else none
  | _ => none

/-- A field that may be missing. -/
def orDefault {α : Type} (default : α) (decode : Json → Option α) : Option Json → Option α
  | none => some default
  | some j => decode j

/-- A descriptor number. -/
def fd? (j : Json) : Option UInt32 :=
  (natBelow? (Nat.pow 2 32) j).map UInt32.ofNat

/-- A byte offset. -/
def offset? (j : Json) : Option UInt64 :=
  (natBelow? (Nat.pow 2 64) j).map UInt64.ofNat

/-- A payload of a plain alternative: nothing, or the null document. -/
def isPlain : Option Json → Bool
  | none => true
  | some .null => true
  | _ => false

/-- A position; one level of nesting. -/
def span? : (depth : Nat) → Json → Option Span
  | 0, _ => none
  | _ + 1, j => do
    let [some start, some stop] ← fields? ["start", "end"] j | none
    return ⟨← offset? start, ← offset? stop⟩

/-- A redirection mode. -/
def mode? (depth : Nat) (j : Json) : Option RedirMode := do
  let (tag, payload) ← variant? j
  guard (isPlain payload && (payload.isNone || depth > 0))
  match tag with
  | "read" => some .read
  | "write" => some .write
  | "append" => some .append
  | "read_write" => some .readWrite
  | _ => none

/-- A list of at most the given depth, each item read one level further down. -/
def list? {α : Type} (item : Nat → Json → Option α) : (depth : Nat) → Json → Option (List α)
  | depth + 1, .array items => items.mapM (item depth)
  | _, _ => none

/-- A parameter. -/
def param? : (depth : Nat) → Json → Option Param
  | 0, _ => none
  | _ + 1, j => do
    let [some name, rest] ← fields? ["name", "rest"] j | none
    return ⟨← text? name, ← orDefault false flag? rest⟩

mutual

/-- A chunk. -/
def chunk? : (depth : Nat) → Json → Option Chunk
  | 0, _ => none
  | depth + 1, j => do
    let [pipelines] ← fields? ["pipelines"] j | none
    return ⟨← orDefault [] (pipelines? depth) pipelines⟩

/-- A list of pipelines. -/
def pipelines? : (depth : Nat) → Json → Option (List Pipeline)
  | depth + 1, .array items => items.mapM (pipeline? depth)
  | _, _ => none

/-- A pipeline. -/
def pipeline? : (depth : Nat) → Json → Option Pipeline
  | 0, _ => none
  | depth + 1, j => do
    let [some forms, background, span] ← fields? ["forms", "background", "span"] j | none
    return ⟨← forms? depth forms, ← orDefault false flag? background, ← orDefault default (span? depth) span⟩

/-- A list of forms. -/
def forms? : (depth : Nat) → Json → Option (List Form)
  | depth + 1, .array items => items.mapM (form? depth)
  | _, _ => none

/-- A form. -/
def form? : (depth : Nat) → Json → Option Form
  | 0, _ => none
  | depth + 1, j => do
    let [temps, some body, redirs, span] ← fields? ["temp_assigns", "body", "redirs", "span"] j | none
    return ⟨← orDefault [] (assignments? depth) temps, ← body? depth body, ← orDefault [] (redirs? depth) redirs,
      ← orDefault default (span? depth) span⟩

/-- The body of a form. -/
def body? : (depth : Nat) → Json → Option Body
  | 0, _ => none
  | depth + 1, j => do
    let (tag, some payload) ← variant? j | none
    match tag with
    | "assign" => return .assign (← assignment? depth payload)
    | "command" => return .command (← command? depth payload)
    | _ => none

/-- A command. -/
def command? : (depth : Nat) → Json → Option Command
  | 0, _ => none
  | depth + 1, j => do
    let [some head, args, opts] ← fields? ["head", "args", "opts"] j | none
    return ⟨← word? depth head, ← orDefault [] (words? depth) args, ← orDefault [] (opts? depth) opts⟩

/-- A list of options. -/
def opts? : (depth : Nat) → Json → Option (List Opt)
  | depth + 1, .array items => items.mapM (opt? depth)
  | _, _ => none

/-- An option. -/
def opt? : (depth : Nat) → Json → Option Opt
  | 0, _ => none
  | depth + 1, j => do
    let [some name, some value] ← fields? ["name", "value"] j | none
    return ⟨← text? name, ← word? depth value⟩

/-- A list of assignments. -/
def assignments? : (depth : Nat) → Json → Option (List Assignment)
  | depth + 1, .array items => items.mapM (assignment? depth)
  | _, _ => none

/-- An assignment. -/
def assignment? : (depth : Nat) → Json → Option Assignment
  | 0, _ => none
  | depth + 1, j => do
    let [some targets, some values] ← fields? ["targets", "values"] j | none
    return ⟨← targets? depth targets, ← words? depth values⟩

/-- A list of targets. -/
def targets? : (depth : Nat) → Json → Option (List Target)
  | depth + 1, .array items => items.mapM (target? depth)
  | _, _ => none

/-- A target. -/
def target? : (depth : Nat) → Json → Option Target
  | 0, _ => none
  | depth + 1, j => do
    let [some name, indices, rest] ← fields? ["name", "indices", "rest"] j | none
    return ⟨← text? name, ← orDefault [] (words? depth) indices, ← orDefault false flag? rest⟩

/-- A list of redirections. -/
def redirs? : (depth : Nat) → Json → Option (List Redir)
  | depth + 1, .array items => items.mapM (redir? depth)
  | _, _ => none

/-- A redirection. -/
def redir? : (depth : Nat) → Json → Option Redir
  | 0, _ => none
  | depth + 1, j => do
    let [some fd, some mode, some target] ← fields? ["fd", "mode", "target"] j | none
    return ⟨← fd? fd, ← mode? depth mode, ← redirTarget? depth target⟩

/-- What a redirection names. -/
def redirTarget? : (depth : Nat) → Json → Option RedirTarget
  | 0, j => if (text? j) == some "close" then some .close else none
  | depth + 1, j => do
    let (tag, payload) ← variant? j
    match tag, payload with
    | "path", some payload => return .path (← word? depth payload)
    | "fd", some payload => return .fd (← fd? payload)
    | "close", payload => if isPlain payload then some .close else none
    | _, _ => none

/-- A word. -/
def word? : (depth : Nat) → Json → Option Word
  | 0, _ => none
  | depth + 1, j => do
    let (tag, some payload) ← variant? j | none
    match tag with
    | "bareword" => return .bare (← text? payload)
    | "quoted" => return .quoted (← text? payload)
    | "variable" => varWord? depth payload
    | "index" => index? depth payload
    | "list" => return .list (← words? depth payload)
    | "map" => return .map (← pairs? depth payload)
    | "lambda" => lambda? depth payload
    | "output_capture" => return .capture (← chunk? depth payload)
    | "exception_capture" => return .rescue (← chunk? depth payload)
    | "compound" => return .compound (← words? depth payload)
    | "wildcard" => wildcard? depth payload
    | _ => none

/-- The payload of a variable. -/
def varWord? : (depth : Nat) → Json → Option Word
  | 0, _ => none
  | _ + 1, j => do
    let [some name, explode] ← fields? ["name", "explode"] j | none
    return .variable (← text? name) (← orDefault false flag? explode)

/-- The payload of an indexing. -/
def index? : (depth : Nat) → Json → Option Word
  | 0, _ => none
  | depth + 1, j => do
    let [some base, some indices] ← fields? ["base", "indices"] j | none
    return .index (← word? depth base) (← words? depth indices)

/-- The payload of a lambda. -/
def lambda? : (depth : Nat) → Json → Option Word
  | 0, _ => none
  | depth + 1, j => do
    let [params, some body] ← fields? ["params", "body"] j | none
    return .lambda (← orDefault [] (list? param? depth) params) (← chunk? depth body)

/-- The payload of a pattern. -/
def wildcard? : (depth : Nat) → Json → Option Word
  | 0, _ => none
  | _ + 1, j => do
    let [some pattern, mayMiss] ← fields? ["pattern", "nomatch_ok"] j | none
    return .wildcard (← text? pattern) (← orDefault false flag? mayMiss)

/-- A list of words. -/
def words? : (depth : Nat) → Json → Option (List Word)
  | depth + 1, .array items => items.mapM (word? depth)
  | _, _ => none

/-- A list of pairs of words. -/
def pairs? : (depth : Nat) → Json → Option (List (Word × Word))
  | depth + 1, .array items => items.mapM (pair? depth)
  | _, _ => none

/-- A pair of words, as an array of two. -/
def pair? : (depth : Nat) → Json → Option (Word × Word)
  | depth + 1, .array [k, v] => do return (← word? depth k, ← word? depth v)
  | _, _ => none

end

/-- The program a document holds, nested at most as deep as a text may be. -/
def Chunk.ofJson? (j : Json) : Option Chunk :=
  chunk? Json.nestingLimit j

/-- The program a JSON text holds. -/
def Chunk.ofText? (text : String) : Option Chunk :=
  match Json.read (Utf8.encode text) with
  | .ok j => Chunk.ofJson? j
  | .error _ => none

end DualShell.Source
