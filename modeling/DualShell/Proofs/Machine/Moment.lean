import Mathlib.Logic.Relation
import DualShell.Proofs.Machine.Steps

/-!
# Runs moment by moment

A run lets every task have its turn, round after round, and has bounds on its turns and rounds. A `Moment` is where a
run stands between two requests, and `Moment.next` goes on by one request, without any bound. So a run within bounds is
a course of such steps in which tasks may be given up (`Pool.run_course`), and steps that come to the end make up the
run within any bounds that are large enough (`Moment.Goes.run_eq`).
-/

namespace DualShell

/-- A moment of a run: the tasks whose turn in this round is under way or yet to come, those that had it and go on,
whether anything was done in this round, and the machine. -/
structure Moment where
  due : List (TaskId × Task Outcome)
  had : List (TaskId × Task Outcome)
  moved : Bool
  world : World

variable (start : Work → Task Outcome)

namespace Moment

/-- The next moment: a request is answered or has to wait, a task ends, or a round begins. There is none when everything
is done or nothing moves. -/
def next (m : Moment) : Option Moment :=
  match m.due with
  | [] =>
    let p := Pool.adopt start ⟨m.had, m.world⟩
    if m.moved && !p.tasks.isEmpty then some ⟨p.tasks, [], false, p.world⟩ else none
  | (who, .ret o) :: due => some ⟨due, m.had, true, m.world.endTask who o⟩
  | (_, .exhausted) :: _ => none
  | (who, .request r rest) :: due =>
    match m.world.perform who r with
    | (some x, w) => some ⟨(who, rest x) :: due, m.had, true, w⟩
    | (none, w) => some ⟨due, m.had ++ [(who, .request r rest)], m.moved, w⟩

/-- One moment comes after another. -/
abbrev Goes : Moment → Moment → Prop := Relation.ReflTransGen fun m m' => m.next start = some m'

/-- One moment comes after another, and the tasks in the list are given up on the way. -/
inductive Course : List TaskId → Moment → Moment → Prop
  | refl (m : Moment) : Course [] m m
  | next {lost m m' m''} (h : m.next start = some m') (h' : Course lost m' m'') : Course lost m m''
  | giveUp {lost who t due had moved w m} (h : Course lost ⟨due, had, moved, w⟩ m) :
      Course (who :: lost) ⟨(who, t) :: due, had, moved, w⟩ m

variable {start} {who : TaskId} {due had : List (TaskId × Task Outcome)} {moved : Bool} {w w' : World} {m m' m'' : Moment}
  {lost lost' : List TaskId}

/-- A task that is over ends, and that moves the machine. -/
theorem next_ret (o : Outcome) : next start ⟨(who, .ret o) :: due, had, moved, w⟩ =
    some ⟨due, had, true, w.endTask who o⟩ := rfl

/-- A task that is answered goes on at once. -/
theorem next_answer {r : Request} {rest : r.Response → Task Outcome} {x : r.Response} (h : w.perform who r = (some x, w')) :
    next start ⟨(who, .request r rest) :: due, had, moved, w⟩ = some ⟨(who, rest x) :: due, had, true, w'⟩ := by
  unfold next
  simp only [h]

/-- A task that is not answered waits for the next round. -/
theorem next_wait {r : Request} {rest : r.Response → Task Outcome} (h : w.perform who r = (none, w')) :
    next start ⟨(who, .request r rest) :: due, had, moved, w⟩ = some ⟨due, had ++ [(who, .request r rest)], moved, w'⟩ := by
  unfold next
  simp only [h]

/-- When all tasks had their turns and something moved, there is another round. -/
theorem next_round {t : TaskId × Task Outcome} {ts : List (TaskId × Task Outcome)}
    (h : (Pool.adopt start ⟨had, w⟩).tasks = t :: ts) :
    next start ⟨[], had, true, w⟩ = some ⟨t :: ts, [], false, (Pool.adopt start ⟨had, w⟩).world⟩ := by
  unfold next
  simp only [h]
  rfl

/-- Nothing comes after everything is done. -/
theorem next_done (h : w.spawned = []) : next start ⟨[], [], moved, w⟩ = none := by
  unfold next Pool.adopt
  rw [h]
  cases moved <;> rfl

/-- Nothing comes after the end, so all moments are on the way there. -/
theorem Goes.upTo (h : Goes start m m') (h' : Goes start m m'') (hend : m''.next start = none) : Goes start m' m'' := by
  have hunique : Relator.RightUnique fun m m' : Moment => m.next start = some m' :=
    fun _ _ _ ha hb => Option.some.inj (ha.symm.trans hb)
  obtain hgoes | hgoes := Relation.ReflTransGen.total_of_right_unique hunique h h'
  · exact hgoes
  · obtain rfl | ⟨_, hnext, -⟩ := Relation.ReflTransGen.cases_head hgoes
    · exact .refl
    · rw [hend] at hnext
      cases hnext

/-- Courses one after another are a course. -/
theorem Course.trans (h : Course start lost m m') (h' : Course start lost' m' m'') : Course start (lost ++ lost') m m'' := by
  induction h with
  | refl => exact h'
  | next hn _ ih => exact .next hn (ih h')
  | giveUp _ ih => exact .giveUp (ih h')

/-- Where no task is given up, moments just come one after another. -/
theorem Course.goes (h : Course start lost m m') (hlost : lost = []) : Goes start m m' := by
  induction h with
  | refl => exact .refl
  | next hn _ ih => exact .head hn (ih hlost)
  | giveUp => cases hlost

end Moment

open Moment

/-! ## Bounded runs are courses -/

namespace Pool

variable {start}

/-- There is nothing to take up. -/
theorem adopt_eq {p : Pool} (h : p.world.spawned = []) : p.adopt start = p := by
  obtain ⟨tasks, w⟩ := p
  obtain ⟨store, fresh, channels, handles, collectors, files, source, modules, kernels, nextTask, spawned, ended⟩ := w
  obtain rfl : spawned = [] := h
  exact congrArg (Pool.mk · _) (List.append_nil tasks)

/-- A run without tasks is over. -/
theorem run_done {p : Pool} (h : (p.adopt start).tasks = []) (fuel rounds : Nat) :
    run start fuel (rounds + 1) p = p.adopt start := by
  unfold run
  simp only [h, List.isEmpty_nil, if_true]

/-- A run with tasks goes through a round, and on if something moved. -/
theorem run_round {p : Pool} {t : TaskId × Task Outcome} {ts tasks : List (TaskId × Task Outcome)} {fuel : Nat}
    {moved : Bool} {w : World}
    (h : (p.adopt start).tasks = t :: ts) (hround : round fuel (t :: ts) (p.adopt start).world = (tasks, moved, w))
    (rounds : Nat) :
    run start fuel (rounds + 1) p = if moved then run start fuel rounds ⟨tasks, w⟩ else ⟨tasks, w⟩ := by
  rw [run]
  simp only [h, hround, List.isEmpty_cons, Bool.false_eq_true, if_false]

/-- Where a turn leads to. -/
theorem turn_course (due had : List (TaskId × Task Outcome)) (flag : Bool) (who : TaskId) (fuel : Nat) (moved : Bool)
    (t : Task Outcome) (w : World) : ∃ lost, Course start lost ⟨(who, t) :: due, had, flag || moved, w⟩
      (match t.run who fuel moved w with
        | (.waiting t, moved, w) => ⟨due, had ++ [(who, t)], flag || moved, w⟩
        | (.ended o, moved, w) => ⟨due, had, flag || moved, w.endTask who o⟩
        | (.exhausted, moved, w) => ⟨due, had, flag || moved, w⟩) := by
  induction fuel generalizing moved t w with
  | zero => exact ⟨[who], .giveUp (.refl _)⟩
  | succ fuel ih =>
    cases t with
    | ret o =>
      refine ⟨[], .next (next_ret o) ?_⟩
      simp only [Task.run, Bool.or_true]
      exact .refl _
    | exhausted => exact ⟨[who], .giveUp (.refl _)⟩
    | request r rest =>
      unfold Task.run
      rcases hx : w.perform who r with ⟨_ | x, w'⟩
      · exact ⟨[], .next (next_wait hx) (.refl _)⟩
      · obtain ⟨lost, hcourse⟩ := ih true (rest x) w'
        rw [Bool.or_true] at hcourse
        exact ⟨lost, .next (next_answer hx) hcourse⟩

/-- A bounded round is a course of moments. -/
theorem round_course (fuel : Nat) (tasks had : List (TaskId × Task Outcome)) (flag : Bool) (w : World) :
    ∃ lost, Course start lost ⟨tasks, had, flag, w⟩
      ⟨[], had ++ (round fuel tasks w).1, flag || (round fuel tasks w).2.1, (round fuel tasks w).2.2⟩ := by
  induction tasks generalizing had flag w with
  | nil => exact ⟨[], by simpa [round] using Course.refl _⟩
  | cons t rest ih =>
    obtain ⟨who, t⟩ := t
    obtain ⟨lost, hturn⟩ : ∃ lost, Course start lost _ _ := turn_course rest had flag who fuel false t w
    rw [Bool.or_false] at hturn
    unfold round turn
    rcases hrun : t.run who fuel false w with ⟨⟨t'⟩ | ⟨o⟩ | _, moved, w'⟩ <;> rw [hrun] at hturn
    · obtain ⟨lost', hrest⟩ := ih (had ++ [(who, t')]) (flag || moved) w'
      rw [List.append_assoc, Bool.or_assoc] at hrest
      exact ⟨_, hturn.trans hrest⟩
    · obtain ⟨lost', hrest⟩ := ih had (flag || moved) (w'.endTask who o)
      rw [Bool.or_assoc] at hrest
      exact ⟨_, hturn.trans hrest⟩
    · obtain ⟨lost', hrest⟩ := ih had (flag || moved) w'
      rw [Bool.or_assoc] at hrest
      exact ⟨_, hturn.trans hrest⟩

/-- A run within bounds is a course, on which tasks may be given up. -/
theorem run_course (fuel rounds : Nat) (p : Pool) :
    ∃ lost m, Course start lost ⟨[], p.tasks, true, p.world⟩ m ∧ m.world = (run start fuel rounds p).world := by
  induction rounds generalizing p with
  | zero => exact ⟨[], _, .refl _, rfl⟩
  | succ rounds ih =>
    rcases htasks : (p.adopt start).tasks with _ | ⟨t, ts⟩
    · have hspawned : p.world.spawned = [] := List.map_eq_nil_iff.1 (List.append_eq_nil_iff.1 htasks).2
      exact ⟨[], _, .refl _, by rw [run_done htasks, adopt_eq hspawned]⟩
    · obtain ⟨lost, hround⟩ : ∃ lost, Course start lost _ _ := round_course fuel (t :: ts) [] false (p.adopt start).world
      rcases hres : round fuel (t :: ts) (p.adopt start).world with ⟨tasks, moved, w⟩
      rw [hres, List.nil_append, Bool.false_or] at hround
      have hfirst : Course start lost ⟨[], p.tasks, true, p.world⟩ ⟨[], tasks, moved, w⟩ := .next (next_round htasks) hround
      rw [run_round htasks hres]
      cases moved with
      | false => exact ⟨lost, _, hfirst, rfl⟩
      | true =>
        obtain ⟨lost', m, hrest, hworld⟩ := ih ⟨tasks, w⟩
        exact ⟨lost ++ lost', m, hfirst.trans hrest, hworld⟩

end Pool

/-! ## Moments to the end are bounded runs -/

/-- That something was done before does not change what a turn does. -/
theorem Task.run_moved (who : TaskId) (fuel : Nat) (t : Task Outcome) (w : World) :
    t.run who fuel true w = ((t.run who fuel false w).1, true, (t.run who fuel false w).2.2) := by
  induction fuel generalizing t w with
  | zero => rfl
  | succ fuel ih =>
    cases t with
    | ret | exhausted => rfl
    | request r rest =>
      unfold Task.run
      rcases w.perform who r with ⟨_ | x, w'⟩
      · rfl
      · simp only
        rw [ih]

namespace Moment

/-- Go on from a moment within bounds; `now` is what is left for the turn under way. -/
def resume (fuel rounds now : Nat) (m : Moment) : Pool :=
  let (tasks, moved, w) : List (TaskId × Task Outcome) × Bool × World :=
    match m.due with
    | [] => ([], false, m.world)
    | (who, t) :: rest =>
      let (t, moved, w) := Pool.turn now who t m.world
      let (others, movedToo, w) := Pool.round fuel rest w
      ((match t with
        | some t => (who, t) :: others
        | none => others), moved || movedToo, w)
  if m.moved || moved then Pool.run start fuel rounds ⟨m.had ++ tasks, w⟩ else ⟨m.had ++ tasks, w⟩

variable {start} {who : TaskId} {due had : List (TaskId × Task Outcome)} {moved : Bool} {w w' : World} {m m' : Moment}
  {lost : List TaskId} {fuel rounds now : Nat}

/-- A moment within a round goes on to the end of the round, and then as the run does. -/
theorem resume_fresh : resume start fuel rounds fuel ⟨due, had, moved, w⟩ =
    if moved || (Pool.round fuel due w).2.1 then
      Pool.run start fuel rounds ⟨had ++ (Pool.round fuel due w).1, (Pool.round fuel due w).2.2⟩
    else ⟨had ++ (Pool.round fuel due w).1, (Pool.round fuel due w).2.2⟩ := by
  cases due <;> rfl

/-- After a round that moved the run goes on. -/
theorem resume_round : resume start fuel rounds now ⟨[], had, true, w⟩ = Pool.run start fuel rounds ⟨had, w⟩ := by
  simp [resume]

/-- To go on by one request takes no more than one of what is left. -/
theorem resume_next (h : m.next start = some m') :
    ∃ rounds' now', rounds ≤ rounds' ∧ (now ≤ now' ∨ fuel ≤ now') ∧
      resume start fuel (rounds + 1) (now + 1) m = resume start fuel rounds' now' m' := by
  obtain ⟨due, had, moved, w⟩ := m
  rcases due with _ | ⟨⟨who, t⟩, due⟩
  · rcases htasks : (Pool.adopt start ⟨had, w⟩).tasks with _ | ⟨t, ts⟩
    · cases moved <;> simp [next, htasks] at h
    · cases moved with
      | false => cases h
      | true =>
        rw [next_round htasks] at h
        cases h
        refine ⟨rounds, fuel, Nat.le_refl _, .inr (Nat.le_refl _), ?_⟩
        rw [resume_fresh, resume_round, Pool.run_round htasks rfl]
        rfl
  · cases t with
    | ret o =>
      cases h
      refine ⟨rounds + 1, fuel, Nat.le_succ _, .inr (Nat.le_refl _), ?_⟩
      rw [resume_fresh]
      simp [resume, Pool.turn, Task.run]
    | exhausted => cases h
    | request r rest =>
      rcases hx : w.perform who r with ⟨_ | x, w'⟩
      · rw [next_wait hx] at h
        cases h
        refine ⟨rounds + 1, fuel, Nat.le_succ _, .inr (Nat.le_refl _), ?_⟩
        rw [resume_fresh]
        simp [resume, Pool.turn, Task.run, hx]
      · rw [next_answer hx] at h
        cases h
        refine ⟨rounds + 1, now, Nat.le_succ _, .inl (Nat.le_refl _), ?_⟩
        simp only [resume, Pool.turn, Task.run, hx, Task.run_moved who now (rest x) w']
        rcases (rest x).run who now false w' with ⟨_ | _ | _, moved', w''⟩ <;> simp

/-- Steps that come to the end are the run within all bounds that are large enough. -/
theorem Goes.resume_eq (h : Goes start m ⟨[], [], true, w⟩) (hspawned : w.spawned = []) :
    ∃ enough, ∀ fuel rounds now, enough ≤ fuel → enough ≤ rounds → enough ≤ now →
    resume start fuel rounds now m = ⟨[], w⟩ := by
  induction h using Relation.ReflTransGen.head_induction_on with
  | refl =>
    refine ⟨0, fun fuel rounds now _ _ _ => ?_⟩
    have hadopt : Pool.adopt start ⟨[], w⟩ = ⟨[], w⟩ := Pool.adopt_eq hspawned
    rw [resume_round]
    cases rounds with
    | zero => rfl
    | succ rounds => rw [Pool.run_done (by rw [hadopt]), hadopt]
  | head hnext _ ih =>
    obtain ⟨enough, henough⟩ := ih
    refine ⟨enough + 1, fun fuel rounds now hfuel hrounds hnow => ?_⟩
    obtain ⟨rounds, rfl⟩ := Nat.exists_eq_add_of_le' (Nat.le_trans (Nat.le_add_left 1 enough) hrounds)
    obtain ⟨now, rfl⟩ := Nat.exists_eq_add_of_le' (Nat.le_trans (Nat.le_add_left 1 enough) hnow)
    obtain ⟨rounds', now', hrounds', hnow', heq⟩ : ∃ rounds' now', rounds ≤ rounds' ∧ (now ≤ now' ∨ fuel ≤ now') ∧ _ :=
      resume_next hnext
    rw [heq]
    exact henough fuel rounds' now' (by omega) (by omega) (by omega)

/-- A machine that comes to its end by moments does so by every run that is long enough. -/
theorem Goes.run_eq {p : Pool} (h : Goes start ⟨[], p.tasks, true, p.world⟩ ⟨[], [], true, w⟩) (hspawned : w.spawned = []) :
    ∃ enough, ∀ fuel rounds, enough ≤ fuel → enough ≤ rounds → Pool.run start fuel rounds p = ⟨[], w⟩ := by
  obtain ⟨enough, henough⟩ := h.resume_eq hspawned
  refine ⟨enough, fun fuel rounds hfuel hrounds => ?_⟩
  rw [← henough fuel rounds fuel hfuel hrounds hfuel, resume_round]

/-! ## Up to the end of a task -/

/-- It is the turn of the task, and it is at its end. -/
def AtEnd (who : TaskId) (m : Moment) : Prop := ∃ o due, m.due = (who, .ret o) :: due

variable (start) in
/-- One moment comes after another, up to the end of the task. -/
abbrev Before (who : TaskId) : Moment → Moment → Prop := Relation.ReflTransGen fun m m' => ¬m.AtEnd who ∧
    m.next start = some m'

/-- What goes on before the end of a task goes on. -/
theorem Before.goes (h : Before start who m m') : Goes start m m' := by
  induction h with
  | refl => exact .refl
  | tail _ hnext ih => exact ih.tail hnext.2

/-- The moments up to the end of the task are on the way to it. -/
theorem Before.upTo {m'' : Moment} (h : Before start who m m') (h' : Before start who m m'') (hend : m''.AtEnd who) :
    Before start who m' m'' := by
  have hunique : Relator.RightUnique fun m m' : Moment => ¬m.AtEnd who ∧ m.next start = some m' :=
    fun _ _ _ ha hb => Option.some.inj (ha.2.symm.trans hb.2)
  obtain hbefore | hbefore := Relation.ReflTransGen.total_of_right_unique hunique h h'
  · exact hbefore
  · obtain rfl | ⟨_, hnext, -⟩ := Relation.ReflTransGen.cases_head hbefore
    · exact .refl
    · exact absurd hend hnext.1

/-! ## Moments and steps -/

/-- The tasks of a moment, and their machine. -/
def pool (m : Moment) : Pool := ⟨m.had ++ m.due, m.world⟩

/-- What happens between two moments is a step of the tasks. -/
theorem next_step {l : Limits} (h : m.next l.evaluator.evalWork = some m') : ∃ ds, m.pool.Step ds m'.pool := by
  obtain ⟨due, had, moved, w⟩ := m
  unfold pool
  rcases due with _ | ⟨⟨who, t⟩, due⟩
  · simp only [next] at h
    split at h
    · cases h
      refine ⟨[], ?_⟩
      rw [List.append_nil, List.nil_append]
      exact .takeUp l
    · cases h
  · cases t with
    | ret o =>
      cases h
      exact ⟨_, .finish⟩
    | exhausted => cases h
    | request r rest =>
      rcases hx : w.perform who r with ⟨_ | x, w'⟩
      · rw [next_wait hx] at h
        cases h
        exact ⟨[], by simpa using Pool.Step.wait hx⟩
      · rw [next_answer hx] at h
        cases h
        exact ⟨_, .answer hx⟩

/-- A course is made of steps of the tasks. -/
theorem Course.pool_goes {l : Limits} (h : Course l.evaluator.evalWork lost m m') : ∃ ds, m.pool.Goes ds m'.pool := by
  induction h with
  | refl m => exact ⟨[], .refl _⟩
  | next hnext _ ih =>
    obtain ⟨ds, hs⟩ := next_step hnext
    obtain ⟨ds', hgoes⟩ := ih
    exact ⟨_, .step hs hgoes⟩
  | giveUp _ ih =>
    obtain ⟨ds', hgoes⟩ := ih
    exact ⟨_, .quiet .giveUp hgoes⟩

end Moment

end DualShell
