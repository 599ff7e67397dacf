import DualShell.Machine.Perform
import DualShell.Machine.Task

/-!
# Taking turns

Several tasks on one machine. A task runs until it has to wait or ends; then it is the turn of the next one. What was started
meanwhile comes last. When in a whole round nobody could do anything, nobody ever will.
-/

namespace DualShell

/-- Where a task stands after its turn. -/
inductive Turn
  | waiting (t : Task Outcome)
  | ended (o : Outcome)
  /-- The bound of the turn was reached. -/
  | exhausted

/-- Answer the requests of a task until one has to wait; whether any was answered. -/
def Task.run (who : TaskId) : (fuel : Nat) → (moved : Bool) → Task Outcome → World → Turn × Bool × World
  | 0, moved, _, w => (.exhausted, moved, w)
  | _ + 1, _, .ret o, w => (.ended o, true, w)
  | _ + 1, moved, .exhausted, w => (.exhausted, moved, w)
  | fuel + 1, moved, .request r next, w =>
    match w.perform who r with
    | (some x, w) => (next x).run who fuel true w
    | (none, w) => (.waiting (.request r next), moved, w)

/-- The tasks that are not done, and the machine they run on. -/
structure Pool where
  tasks : List (TaskId × Task Outcome)
  world : World

namespace Pool

/-- Take up what was started. -/
def adopt (start : Work → Task Outcome) (p : Pool) : Pool where
  tasks := p.tasks ++ p.world.spawned.map fun s => (s.1, start s.2)
  world := { p.world with spawned := [] }

/-- The turn of one task: it goes on, or its outcome is recorded. A task whose bound was reached is given up. -/
def turn (fuel : Nat) (who : TaskId) (t : Task Outcome) (w : World) : Option (Task Outcome) × Bool × World :=
  match t.run who fuel false w with
  | (.waiting t, moved, w) => (some t, moved, w)
  | (.ended o, moved, w) => (none, moved, w.endTask who o)
  | (.exhausted, moved, w) => (none, moved, w)

/-- One round: every task that was there at its beginning has a turn. -/
def round (fuel : Nat) : List (TaskId × Task Outcome) → World → List (TaskId × Task Outcome) × Bool × World
  | [], w => ([], false, w)
  | (who, t) :: rest, w =>
    let (t, moved, w) := turn fuel who t w
    let (others, movedToo, w) := round fuel rest w
    ((match t with
      | some t => (who, t) :: others
      | none => others), moved || movedToo, w)

/-- Rounds until everything is done or nothing moves. -/
def run (start : Work → Task Outcome) (fuel : Nat) : (rounds : Nat) → Pool → Pool
  | 0, p => p
  | rounds + 1, p =>
    let p := p.adopt start
    if p.tasks.isEmpty then p
    else
      let (tasks, moved, world) := round fuel p.tasks p.world
      if moved then run start fuel rounds ⟨tasks, world⟩ else ⟨tasks, world⟩

end Pool

end DualShell
