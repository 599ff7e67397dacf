import DualShell.Eval.Run

/-!
# Steps of tasks

What tasks do on a machine, in any order: answers to requests of any of them, ends, and starts of what was started. It
is told by its `Deed`s. Nothing in a step depends on whose turn it is, so what holds of all steps holds however tasks
take turns; the rounds of the scheduler are among the ways to go on (`Pool.Goes.run`), and their deeds can be computed
(`Pool.deeds`).
-/

namespace DualShell

/-- Something that happened. -/
inductive Deed
  /-- A request was answered, which took the machine from one state to another. -/
  | answered (who : TaskId) (w : World) (r : Request) (x : r.Response) (w' : World)
  /-- A task ended. -/
  | ended (who : TaskId) (o : Outcome)
  /-- A program resolved on a kernel, whose top level knows the names from then on. -/
  | compiled (k : KernelId) (block : Code.Block) (names : List String)
  /-- A variable of a top level was given a value from outside. -/
  | assigned (k : KernelId) (name : String)
  /-- A value was handed out. -/
  | handed (v : Value)
  /-- The modules were forgotten. -/
  | cleared

/-- The deeds of a task in one turn. -/
def Task.deeds (who : TaskId) : (fuel : Nat) → Task Outcome → World → List Deed
  | 0, _, _ => []
  | _ + 1, .ret o, _ => [.ended who o]
  | _ + 1, .exhausted, _ => []
  | fuel + 1, .request r next, w =>
    match w.perform who r with
    | (some x, w') => .answered who w r x w' :: (next x).deeds who fuel w'
    | (none, _) => []

namespace Pool

/-- The deeds of a round. -/
def roundDeeds (fuel : Nat) : List (TaskId × Task Outcome) → World → List Deed
  | [], _ => []
  | (who, t) :: rest, w => t.deeds who fuel w ++ roundDeeds fuel rest (turn fuel who t w).2.2

/-- The deeds of rounds until everything is done or nothing moves. -/
def deeds (start : Work → Task Outcome) (fuel : Nat) : (rounds : Nat) → Pool → List Deed
  | 0, _ => []
  | rounds + 1, p =>
    let p := p.adopt start
    let (tasks, moved, world) := round fuel p.tasks p.world
    roundDeeds fuel p.tasks p.world ++ if moved then deeds start fuel rounds ⟨tasks, world⟩ else []

/-- A step of the tasks, with what was done in it. -/
inductive Step : Pool → List Deed → Pool → Prop
  /-- A request of one of the tasks is answered. -/
  | answer {before who r next after w x w'} (hx : w.perform who r = (some x, w')) :
      Step ⟨before ++ (who, .request r next) :: after, w⟩ [.answered who w r x w'] ⟨before ++ (who, next x) :: after, w'⟩
  /-- A request has to wait. -/
  | wait {before who r next after w w'} (hx : w.perform who r = (none, w')) :
      Step ⟨before ++ (who, .request r next) :: after, w⟩ [] ⟨before ++ (who, .request r next) :: after, w'⟩
  | finish {before who o after w} : Step ⟨before ++ (who, .ret o) :: after, w⟩ [.ended who o] ⟨before ++ after,
      w.endTask who o⟩
  /-- A task is not gone on with. -/
  | giveUp {before t after w} : Step ⟨before ++ t :: after, w⟩ [] ⟨before ++ after, w⟩
  /-- What was started is taken up. -/
  | takeUp {p} (l : Limits) : Step p [] (p.adopt l.evaluator.evalWork)

/-- Steps of the tasks, one after another. -/
inductive Goes : Pool → List Deed → Pool → Prop
  | refl (p : Pool) : Goes p [] p
  | step {p p' p'' ds ds'} (hs : p.Step ds p') (h : Goes p' ds' p'') : Goes p (ds ++ ds') p''

namespace Goes

variable {p p' p'' : Pool} {ds ds' : List Deed}

/-- Runs one after another are a run. -/
theorem trans (h : p.Goes ds p') (h' : p'.Goes ds' p'') : p.Goes (ds ++ ds') p'' := by
  induction h with
  | refl p => exact h'
  | step hs _ ih =>
    rw [List.append_assoc]
    exact .step hs (ih h')

/-- A step without deeds. -/
theorem quiet (hs : p.Step [] p') (h : p'.Goes ds p'') : p.Goes ds p'' := .step hs h

theorem single (hs : p.Step ds p') : p.Goes ds p' := by
  have h := step hs (refl p')
  rwa [List.append_nil] at h

/-- All tasks are given up. -/
theorem giveUpAll {w : World} : (tasks : List (TaskId × Task Outcome)) → Goes ⟨tasks, w⟩ [] ⟨[], w⟩
  | [] => .refl _
  | _ :: tasks => .quiet (@Step.giveUp [] _ _ _) (giveUpAll tasks)

/-- The turn of a task. -/
theorem turn (before after : List (TaskId × Task Outcome)) (who : TaskId) (fuel : Nat) (moved : Bool) (t : Task Outcome)
    (w : World) : Goes ⟨before ++ (who, t) :: after, w⟩ (t.deeds who fuel w)
      (match t.run who fuel moved w with
        | (.waiting t, _, w) => ⟨before ++ (who, t) :: after, w⟩
        | (.ended o, _, w) => ⟨before ++ after, w.endTask who o⟩
        | (.exhausted, _, w) => ⟨before ++ after, w⟩) := by
  induction fuel generalizing moved t w with
  | zero => exact .single .giveUp
  | succ fuel ih =>
    cases t with
    | ret o => exact .single .finish
    | exhausted => exact .single .giveUp
    | request r next =>
      unfold Task.run Task.deeds
      rcases hx : w.perform who r with ⟨x, w'⟩
      cases x with
      | none => exact .single (.wait hx)
      | some x => exact .step (.answer hx) (ih true (next x) w')

/-- A round is a run of the tasks, one after another. -/
theorem round (fuel : Nat) : (rest done : List (TaskId × Task Outcome)) → (w : World) →
    Goes ⟨done ++ rest, w⟩ (roundDeeds fuel rest w) ⟨done ++ (Pool.round fuel rest w).1, (Pool.round fuel rest w).2.2⟩
  | [], _, _ => .refl _
  | (who, t) :: rest, done, w => by
    have hturn := turn done rest who fuel false t w
    unfold Pool.round roundDeeds Pool.turn
    rcases hrun : t.run who fuel false w with ⟨turn, moved, w'⟩
    rw [hrun] at hturn
    cases turn with
    | waiting t' =>
      have hrest := round fuel rest (done ++ [(who, t')]) w'
      exact hturn.trans (by simpa using hrest)
    | ended o => exact hturn.trans (round fuel rest done (w'.endTask who o))
    | exhausted => exact hturn.trans (round fuel rest done w')

/-- The rounds of the scheduler. -/
theorem run (l : Limits) (fuel : Nat) : (rounds : Nat) → ∀ p : Pool,
    p.Goes (p.deeds l.evaluator.evalWork fuel rounds) (Pool.run l.evaluator.evalWork fuel rounds p)
  | 0, p => .refl p
  | rounds + 1, p => by
    have htaken : p.Step [] (p.adopt l.evaluator.evalWork) := .takeUp l
    have hround := round fuel (p.adopt l.evaluator.evalWork).tasks [] (p.adopt l.evaluator.evalWork).world
    simp only [List.nil_append] at hround
    unfold Pool.run Pool.deeds
    by_cases hempty : (p.adopt l.evaluator.evalWork).tasks.isEmpty
    · simp only [hempty, if_true]
      rw [List.isEmpty_iff.1 hempty]
      exact .single htaken
    · simp only [hempty]
      by_cases hmoved : (Pool.round fuel (p.adopt l.evaluator.evalWork).tasks (p.adopt l.evaluator.evalWork).world).2.1
      · simp only [hmoved, if_true]
        exact .quiet htaken (hround.trans (run l fuel rounds _))
      · simp only [hmoved, Bool.false_eq_true, if_false, List.append_nil]
        exact .quiet htaken hround

end Goes

end Pool

end DualShell
