import DualShell.Compile.Program

/-!
# Straight programs

A program is straight if it does one thing after another: everywhere in it, bodies of lambdas included, each pipeline is
one form that is waited for, no failure is held, and the only special forms are definitions and deletions. It is steady
if no element is reached by way of deleting the variable that holds it, and a deletion with an index has one.
-/

namespace DualShell

namespace Source

/-- What tells such programs from others. -/
inductive Part
  | pipeline (forms : Nat) (background : Bool)
  | rescue
  | special (form : SpecialForm)
  /-- A target of an assignment. -/
  | target (name : String) (indices : List Word)
  /-- What is to be deleted. -/
  | deleted (word : Word)
  | lambda (body : Chunk)

/-- The parts of a command that are due to its head. -/
def Command.headParts (head : Word) (args : List Word) : List Part :=
  match head with
  | .bare name =>
    match SpecialForm.ofName? name with
    | some .delete => .special .delete :: args.map .deleted
    | some form => [.special form]
    | none => []
  | _ => []

mutual

/-- The parts of a program that runs in one frame. -/
def Chunk.parts : Chunk → List Part
  | ⟨ps⟩ => pipelinesParts ps

def pipelinesParts : List Pipeline → List Part
  | [] => []
  | p :: ps => p.parts ++ pipelinesParts ps

/-- The parts of a pipeline. -/
def Pipeline.parts : Pipeline → List Part
  | ⟨forms, background, _⟩ => .pipeline forms.length background :: formsParts forms

def formsParts : List Form → List Part
  | [] => []
  | f :: fs => f.parts ++ formsParts fs

/-- The parts of a form. -/
def Form.parts : Form → List Part
  | ⟨temps, body, redirs, _⟩ => redirsParts redirs ++ (assignmentsParts temps ++ body.parts)

def assignmentsParts : List Assignment → List Part
  | [] => []
  | a :: as => a.parts ++ assignmentsParts as

/-- The parts of an assignment. -/
def Assignment.parts : Assignment → List Part
  | ⟨targets, values⟩ => wordsParts values ++ targetsParts targets

def targetsParts : List Target → List Part
  | [] => []
  | ⟨name, indices, _⟩ :: ts => .target name indices :: (wordsParts indices ++ targetsParts ts)

/-- The parts of the body of a form. -/
def Body.parts : Body → List Part
  | .assign a => a.parts
  | .command c => c.parts

/-- The parts of a command. -/
def Command.parts : Command → List Part
  | ⟨head, args, opts⟩ => Command.headParts head args ++ (head.parts ++ (wordsParts args ++ optsParts opts))

def optsParts : List Opt → List Part
  | [] => []
  | ⟨_, value⟩ :: os => value.parts ++ optsParts os

/-- The parts of a word; the body of a lambda runs in another frame. -/
def Word.parts : Word → List Part
  | .bare _ => []
  | .quoted _ => []
  | .variable _ _ => []
  | .index base indices => base.parts ++ wordsParts indices
  | .list items => wordsParts items
  | .map pairs => pairsParts pairs
  | .lambda _ body => [.lambda body]
  | .capture body => body.parts
  | .rescue body => .rescue :: body.parts
  | .compound parts => wordsParts parts
  | .wildcard _ _ => []

def wordsParts : List Word → List Part
  | [] => []
  | w :: ws => w.parts ++ wordsParts ws

def pairsParts : List (Word × Word) → List Part
  | [] => []
  | (k, v) :: ps => k.parts ++ (v.parts ++ pairsParts ps)

def redirsParts : List Redir → List Part
  | [] => []
  | ⟨_, _, target⟩ :: rs => target.parts ++ redirsParts rs

/-- The parts of the target of a redirection. -/
def RedirTarget.parts : RedirTarget → List Part
  | .path word => word.parts
  | .fd _ => []
  | .close => []

end

/-- Something holds of every part of a program, bodies of lambdas included. -/
inductive Chunk.Everywhere (P : Part → Prop) : Chunk → Prop
  | intro {chunk : Chunk} (here : ∀ p ∈ chunk.parts, P p) (inside : ∀ body, .lambda body ∈ chunk.parts → body.Everywhere P) :
      chunk.Everywhere P

/-- Whether a part has a frame of its own. -/
def Part.isLambda : Part → Bool
  | .lambda _ => true
  | _ => false

/-- A program of one frame. -/
theorem Chunk.Everywhere.flat {P : Part → Prop} {chunk : Chunk} (h : ∀ p ∈ chunk.parts, P p)
    (hflat : chunk.parts.any Part.isLambda = false) : chunk.Everywhere P :=
  .intro h fun _ hbody => absurd rfl (List.any_eq_false.1 hflat _ hbody)

/-- A part that may stand in a straight program. -/
def Part.Straight : Part → Prop
  | .pipeline forms background => forms = 1 ∧ background = false
  | .rescue => False
  | .special form => form = .define ∨ form = .delete
  | _ => True

instance : DecidablePred Part.Straight
  | .pipeline forms background => inferInstanceAs (Decidable (forms = 1 ∧ background = false))
  | .rescue => inferInstanceAs (Decidable False)
  | .special form => inferInstanceAs (Decidable (form = .define ∨ form = .delete))
  | .target _ _ | .deleted _ | .lambda _ => inferInstanceAs (Decidable True)

/-- The variables that parts delete. -/
def drops (ps : List Part) : List String :=
  ps.filterMap fun
    | .deleted (.bare name) => some (withoutLocal name)
    | _ => none

/-- The indices do not delete the variable, however it is spelled. -/
def Stays (name : String) (indices : List Word) : Prop :=
  ∀ n ∈ drops (wordsParts indices), n ≠ name ∧ n ≠ withoutLocal name

/-- A part that reaches no element by way of deleting the variable that holds it. -/
def Part.Steady : Part → Prop
  | .target name indices => Stays name indices
  | .deleted (.index (.bare name) indices) => indices ≠ [] ∧ Stays name indices
  | _ => True

/-- A part of a program that is straight and steady. -/
structure Part.Followed (p : Part) : Prop where
  straight : p.Straight
  steady : p.Steady
  inside : ∀ body, p = .lambda body → body.Everywhere Part.Straight ∧ body.Everywhere Part.Steady

/-- The parts of a program that is straight and steady. -/
def Followed (ps : List Part) : Prop := ∀ p ∈ ps, p.Followed

/-- A chunk all of whose parts are straight and steady keeps what it says about itself. -/
theorem Chunk.Everywhere.followed {chunk : Chunk} (h : chunk.Everywhere Part.Straight) (h' : chunk.Everywhere Part.Steady) :
    Followed chunk.parts := by
  obtain ⟨hstraight, hinside⟩ := h
  obtain ⟨hsteady, hinside'⟩ := h'
  refine fun p hp => ⟨hstraight p hp, hsteady p hp, fun body hbody => ?_⟩
  subst hbody
  exact ⟨hinside body hp, hinside' body hp⟩

namespace Followed

variable {ps qs : List Part} {p : Part}

theorem left (h : Followed (ps ++ qs)) : Followed ps := fun p hp => h p (List.mem_append_left _ hp)

theorem right (h : Followed (ps ++ qs)) : Followed qs := fun p hp => h p (List.mem_append_right _ hp)

theorem head (h : Followed (p :: ps)) : p.Followed := h p List.mem_cons_self

theorem tail (h : Followed (p :: ps)) : Followed ps := fun p hp => h p (List.mem_cons_of_mem _ hp)

end Followed

/-- Parts one after another drop what they drop, one after another. -/
theorem drops_append (ps qs : List Part) : drops (ps ++ qs) = drops ps ++ drops qs := List.filterMap_append

end Source

end DualShell
