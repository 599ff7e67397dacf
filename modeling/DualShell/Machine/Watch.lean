import DualShell.Machine.Schedule

/-!
# Watching a run

A run of tasks with someone watching it, who sees the machine after every turn and may remember something of it. The run
is the same as without a watcher (`Pool.watch_fst`).
-/

namespace DualShell.Pool

variable {σ : Type}

/-- One round, watched by someone who remembers something. -/
def watchRound (look : World → σ → σ) (fuel : Nat) :
    List (TaskId × Task Outcome) → World → σ → (List (TaskId × Task Outcome) × Bool × World) × σ
  | [], w, s => (([], false, w), s)
  | (who, t) :: rest, w, s =>
    let (t, moved, w) := turn fuel who t w
    let ((others, movedToo, w), s) := watchRound look fuel rest w (look w s)
    (((match t with
      | some t => (who, t) :: others
      | none => others), moved || movedToo, w), s)

/-- Rounds until everything is done or nothing moves, watched by someone who remembers something. -/
def watch (look : World → σ → σ) (start : Work → Task Outcome) (fuel : Nat) : (rounds : Nat) → Pool → σ → Pool × σ
  | 0, p, s => (p, s)
  | rounds + 1, p, s =>
    let p := p.adopt start
    if p.tasks.isEmpty then (p, s)
    else
      let ((tasks, moved, world), s) := watchRound look fuel p.tasks p.world s
      if moved then watch look start fuel rounds ⟨tasks, world⟩ s else (⟨tasks, world⟩, s)

end DualShell.Pool
