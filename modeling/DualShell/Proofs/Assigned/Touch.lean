import DualShell.Code.Basic

/-!
# What straight code does to its frame

Code without branches, loops and handlers does one thing after another, so what it does to the variables of its frame is
a list (`Code.Block.touches`), in the order of evaluation: the indices of an element come before the variable that holds
it, and a function is bound after its closure is made. Names that are bound before such code `Covers` it if every
variable it reads or indexes into is bound when its turn comes, and if each lambda it makes finds what it takes along
and is covered by its own parameters.
-/

namespace DualShell

/-- Something that straight code does to the variables of its frame. -/
inductive Touch
  /-- A variable is read or indexed into. -/
  | find (name : String)
  /-- A variable is given a value. -/
  | bind (name : String)
  /-- A variable is deleted. -/
  | drop (name : String)
  /-- A lambda becomes a closure, that of the function that is being defined if its variable is given. -/
  | make (op : Code.Lambda) (defined : Option String)
  /-- Something that straight code does not do. -/
  | stray

/-- The names that are bound once it is done. -/
def Touch.after (held : String → Prop) : Touch → String → Prop
  | .bind name => fun n => held n ∨ n = name
  | .drop name => fun n => held n ∧ n ≠ name
  | _ => held

/-- What a variable does where it is read. -/
def Ref.finds : Ref → List Touch
  | .local name => [.find name]
  | .member ns _ => ns.finds
  | _ => []

/-- What a variable does where it is given a value. -/
def Ref.sets : Ref → List Touch
  | .local name => [.bind name]
  | .member _ _ => [.stray]
  | _ => []

/-- What a variable does where an element of it is changed. -/
def Ref.changes : Ref → List Touch
  | .local name => [.find name]
  | .member _ _ => [.stray]
  | _ => []

namespace Code

/-- The names of the arguments of a lambda. -/
def Lambda.variables (op : Lambda) : List String := op.params ++ op.rest.toList

/-- A target that is a variable with a value of its own. -/
def Target.isPlain (t : Target) : Bool := t.indices.isEmpty && !t.rest

mutual

/-- What a block does. -/
def Block.touches : Block → List Touch
  | ⟨ps⟩ => pipelinesTouches ps

def pipelinesTouches : List Pipeline → List Touch
  | [] => []
  | p :: ps => p.touches ++ pipelinesTouches ps

/-- What a pipeline does. -/
def Pipeline.touches : Pipeline → List Touch
  | ⟨forms, background, _, _⟩ => if background then [.stray] else formsTouches forms

/-- What the forms of a pipeline do, of which there is one. -/
def formsTouches : List Form → List Touch
  | [f] => f.touches
  | _ => [.stray]

/-- What a form does. -/
def Form.touches : Form → List Touch
  | ⟨temps, action, redirs, _⟩ => redirsTouches redirs ++ (assignsTouches temps ++ action.touches)

/-- What temporary assignments do, which are to plain targets. -/
def assignsTouches : List Assign → List Touch
  | [] => []
  | a :: as => (if a.targets.all (·.isPlain) then a.touches else [.stray]) ++ assignsTouches as

/-- What an assignment does. -/
def Assign.touches : Assign → List Touch
  | ⟨targets, values⟩ => operandsTouches values ++ targetsTouches targets

def targetsTouches : List Target → List Touch
  | [] => []
  | ⟨ref, indices, _⟩ :: ts =>
    (if indices.isEmpty then ref.sets else operandsTouches indices ++ ref.changes) ++ targetsTouches ts

/-- What an action does. -/
def Action.touches : Action → List Touch
  | .assign op => op.touches
  | .special op => op.touches
  | .call op => op.touches

/-- What a command does. -/
def Call.touches : Call → List Touch
  | ⟨head, args, opts⟩ => head.touches ++ (operandsTouches args ++ optsTouches opts)

/-- What a head does. -/
def Head.touches : Head → List Touch
  | .function _ ref => ref.finds
  | .builtin _ => []
  | .external _ => []
  | .dynamic op => op.touches

def optsTouches : List (String × Operand) → List Touch
  | [] => []
  | (_, op) :: os => op.touches ++ optsTouches os

/-- What an operand does. -/
def Operand.touches : Operand → List Touch
  | .literal _ => []
  | .var ref _ => ref.finds
  | .index base indices => base.touches ++ operandsTouches indices
  | .list items => operandsTouches items
  | .map pairs => pairsTouches pairs
  | .lambda op => [.make op none]
  | .capture body => body.touches
  | .rescue _ => [.stray]
  | .compound parts => operandsTouches parts
  | .wildcard _ _ => []

def operandsTouches : List Operand → List Touch
  | [] => []
  | op :: ops => op.touches ++ operandsTouches ops

def pairsTouches : List (Operand × Operand) → List Touch
  | [] => []
  | (k, v) :: ps => k.touches ++ (v.touches ++ pairsTouches ps)

def redirsTouches : List Redir → List Touch
  | [] => []
  | ⟨_, _, target⟩ :: rs => target.touches ++ redirsTouches rs

/-- What the target of a redirection does. -/
def RedirTarget.touches : RedirTarget → List Touch
  | .path op => op.touches
  | .fd _ => []
  | .close => []

/-- What a special form does. -/
def Special.touches : Special → List Touch
  | .define ref op => .make op (some ref.name) :: ref.sets
  | .delete targets => deletionsTouches targets
  | _ => [.stray]

def deletionsTouches : List Deletion → List Touch
  | [] => []
  | ⟨ref, indices⟩ :: ds =>
    (if indices.isEmpty then
        match ref with
        | .local name => [.drop name]
        | _ => []
      else operandsTouches indices ++ ref.changes) ++ deletionsTouches ds

end

end Code

/-- Targets touch what each of them says: the whole of it, or an element. -/
theorem Code.targetsTouches_cons (t : Target) (ts : List Target) : targetsTouches (t :: ts) =
    (if t.indices.isEmpty then t.ref.sets else operandsTouches t.indices ++ t.ref.changes) ++ targetsTouches ts := by
  cases t
  rfl

/-- With the names bound before, code that touches its frame in this way always finds what it reaches for; and so do the
bodies of the lambdas it makes, with the names of their arguments. -/
inductive Covers : (String → Prop) → List Touch → Prop
  | nil {held} : Covers held []
  | find {held name ts} (h : held name) (rest : Covers held ts) : Covers held (.find name :: ts)
  | bind {held name ts} (rest : Covers (Touch.after held (.bind name)) ts) : Covers held (.bind name :: ts)
  | drop {held name ts} (rest : Covers (Touch.after held (.drop name)) ts) : Covers held (.drop name :: ts)
  | make {held op defined ts} (takes : ∀ c ∈ op.captures, c.source = .local → held c.name ∨ defined = some c.name)
      (body : Covers (· ∈ op.variables) op.body.touches) (rest : Covers held ts) : Covers held (.make op defined :: ts)

/-- More names are bound after the same if more were bound before. -/
theorem Touch.after_mono {held held' : String → Prop} (h : ∀ n, held n → held' n) (t : Touch) {n : String}
    (hn : t.after held n) : t.after held' n := by
  cases t with
  | bind name => exact hn.imp_left (h n)
  | drop name => exact hn.imp_left (h n)
  | _ => exact h n hn

/-- If more names are held, more are held after touches. -/
theorem Touch.afterAll_mono {held held' : String → Prop} (h : ∀ n, held n → held' n) (ts : List Touch) {n : String}
    (hn : ts.foldl Touch.after held n) : ts.foldl Touch.after held' n := by
  induction ts generalizing held held' with
  | nil => exact h n hn
  | cons t ts ih => exact ih (fun _ => t.after_mono h) hn

/-- A name stays bound unless it is deleted. -/
theorem Touch.afterAll_of_held {held : String → Prop} {n : String} (h : held n) {ts : List Touch} (hdrop : .drop n ∉ ts) :
    ts.foldl Touch.after held n := by
  induction ts generalizing held with
  | nil => exact h
  | cons t ts ih =>
    refine ih ?_ fun hts => hdrop (List.mem_cons_of_mem _ hts)
    cases t with
    | bind name => exact .inl h
    | drop name => exact ⟨h, fun heq => hdrop (heq ▸ List.mem_cons_self)⟩
    | _ => exact h

namespace Ref

/-- To find a variable drops no name. -/
theorem quiet_finds : (ref : Ref) → ∀ n, .drop n ∉ ref.finds
  | .local _, n, h => by simp [finds] at h
  | .member ns _, n, h => quiet_finds ns n h
  | .captured _, _, h | .builtin _, _, h | .env _, _, h => nomatch h

/-- To set a variable drops no name. -/
theorem quiet_sets (ref : Ref) (n : String) : .drop n ∉ ref.sets := by
  cases ref <;> simp [sets]

/-- Reading binds nothing and deletes nothing. -/
theorem afterAll_finds (held : String → Prop) : (ref : Ref) → ref.finds.foldl Touch.after held = held
  | .local _ | .captured _ | .builtin _ | .env _ => rfl
  | .member ns _ => afterAll_finds held ns

end Ref

namespace Covers

variable {held held' : String → Prop} {ts us : List Touch}

/-- If more names are held, touches are covered that were covered. -/
theorem mono (h : ∀ n, held n → held' n) (hc : Covers held ts) : Covers held' ts := by
  induction hc generalizing held' with
  | nil => exact .nil
  | find hn _ ih => exact .find (h _ hn) (ih h)
  | bind _ ih => exact .bind (ih fun _ => Touch.after_mono h (.bind _))
  | drop _ ih => exact .drop (ih fun _ => Touch.after_mono h (.drop _))
  | make takes body _ _ ih => exact .make (fun c hc hs => (takes c hc hs).imp_left (h _)) body (ih h)

/-- Touches are covered if the first are and then the rest, with the names that are held by then. -/
theorem append (h : Covers held ts) (h' : Covers (ts.foldl Touch.after held) us) : Covers held (ts ++ us) := by
  induction h with
  | nil => exact h'
  | find hn _ ih => exact .find hn (ih h')
  | bind _ ih => exact .bind (ih h')
  | drop _ ih => exact .drop (ih h')
  | make takes body _ _ ih => exact .make takes body (ih h')

/-- Code that is done one after the other is covered if the first is, and the second after it. -/
theorem of_append (h : Covers held (ts ++ us)) : Covers held ts ∧ Covers (ts.foldl Touch.after held) us := by
  induction ts generalizing held with
  | nil => exact ⟨.nil, h⟩
  | cons t ts ih =>
    cases h with
    | find hn rest => exact ⟨.find hn (ih rest).1, (ih rest).2⟩
    | bind rest => exact ⟨.bind (ih rest).1, (ih rest).2⟩
    | drop rest => exact ⟨.drop (ih rest).1, (ih rest).2⟩
    | make takes body rest => exact ⟨.make takes body (ih rest).1, (ih rest).2⟩

/-- A stray touch is never covered. -/
theorem not_stray (h : Covers held (.stray :: ts)) : False := nomatch h

end Covers

end DualShell
