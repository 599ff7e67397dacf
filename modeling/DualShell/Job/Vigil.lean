import DualShell.Job.Table

/-!
# Waiting for jobs

Who waits for several jobs waits for one after another. When its turn comes, a job that is not tracked any more is
passed over; one that is found then is waited for, even if it is forgotten meanwhile.
-/

namespace DualShell

/-- The jobs that are still to be waited for, of which the first has been found, and the results so far. -/
structure Vigil where
  left : List JobId
  results : List (JobId × RunResult)

namespace Vigil

/-- Find one job after another, up to one that is running. -/
def advance (t : JobTable) : List JobId → List (JobId × RunResult) → Vigil
  | [], results => ⟨[], results⟩
  | id :: ids, results =>
    match t.wait id with
    | .pending => ⟨id :: ids, results⟩
    | .unknown => advance t ids results
    | .result r => advance t ids (results ++ [(id, r)])

/-- Start to wait for all jobs that are tracked, in the order of their numbers. -/
def begin (t : JobTable) : Vigil :=
  advance t (t.list.map (·.id)) []

/-- Go on waiting. -/
def resume (t : JobTable) : Vigil → Vigil
  | ⟨[], results⟩ => ⟨[], results⟩
  | ⟨id :: ids, results⟩ =>
    match t.result? id with
    | none => ⟨id :: ids, results⟩
    | some r => advance t ids (results ++ [(id, r)])

/-- The results, if there is nothing left to wait for. -/
def results? : Vigil → Option (List (JobId × RunResult))
  | ⟨[], results⟩ => some results
  | ⟨_ :: _, _⟩ => none

end Vigil

end DualShell
