import DualShell.Job.RunResult

/-!
# Background jobs

The jobs that were started. Numbers are handed out from 1 and never again. A job is tracked until someone forgets it;
one that ends without a result counts as failed. To wait for a job is to look it up once, and then to wait for its end:
who found it hears how it ends, even if it is forgotten meanwhile.
-/

namespace DualShell

/-- The number of a job. -/
abbrev JobId := Nat

/-- How a job stands. -/
inductive JobState
  | running
  | finished (result : RunResult)
  /-- It ended without a result. -/
  | lost

/-- A word for how a job stands. -/
inductive JobStatus
  | running
  | done
  | failed
  deriving DecidableEq, Repr

/-- The status as shown. -/
def JobStatus.text : JobStatus → String
  | .running => "running"
  | .done => "done"
  | .failed => "failed"

/-- The status of a job. -/
def JobState.status : JobState → JobStatus
  | .running => .running
  | .finished r => if r.ok then .done else .failed
  | .lost => .failed

/-- A job: the text of its pipeline, and how it stands. -/
structure Job where
  id : JobId
  command : String
  state : JobState

/-- What is told about a job. -/
structure JobInfo where
  id : JobId
  command : String
  status : JobStatus
  deriving DecidableEq, Repr

/-- What is told about a job now. -/
def Job.info (j : Job) : JobInfo :=
  ⟨j.id, j.command, j.state.status⟩

/-- The result of a job that has ended. -/
def Job.result? (j : Job) : Option RunResult :=
  match j.state with
  | .running => none
  | .finished r => some r
  | .lost => some (.ofException (.ofCause (.io s!"job {j.id} ended without a result")))

/-- The job after one of a number ended. -/
def Job.settled (j : Job) (id : JobId) (s : JobState) : Job :=
  if j.id == id then
    match j.state with
    | .running => { j with state := s }
    | _ => j
  else j

/-- The number of the next job, and the jobs that are tracked, in the order of their numbers. -/
structure JobTable where
  next : JobId
  jobs : List Job
  /-- The jobs that are not tracked any more. -/
  forgotten : List Job

namespace JobTable

/-- The table before any job. -/
def empty : JobTable := ⟨1, [], []⟩

/-- The jobs that were started, tracked or not. -/
def started (t : JobTable) : List Job := t.jobs ++ t.forgotten

/-- Track a new job. -/
def spawn (t : JobTable) (command : String) : JobId × JobTable :=
  (t.next, { t with next := t.next + 1, jobs := t.jobs ++ [⟨t.next, command, .running⟩] })

/-- A tracked job. -/
def find? (t : JobTable) (id : JobId) : Option Job :=
  t.jobs.find? (·.id == id)

/-- Let a running job end. -/
def settle (t : JobTable) (id : JobId) (state : JobState) : JobTable :=
  { t with jobs := t.jobs.map (·.settled id state), forgotten := t.forgotten.map (·.settled id state) }

/-- A job ends with a result. -/
def finish (t : JobTable) (id : JobId) (r : RunResult) : JobTable :=
  t.settle id (.finished r)

/-- A job ends without one. -/
def lose (t : JobTable) (id : JobId) : JobTable :=
  t.settle id .lost

/-- What is told about one job. -/
def get? (t : JobTable) (id : JobId) : Option JobInfo :=
  (t.find? id).map Job.info

/-- What is told about all jobs. -/
def list (t : JobTable) : List JobInfo :=
  t.jobs.map Job.info

/-- How many jobs are running. -/
def running (t : JobTable) : Nat :=
  (t.jobs.filter (·.state.status == .running)).length

/-- Track only some of the jobs. -/
def keep (t : JobTable) (p : Job → Bool) : JobTable :=
  { t with jobs := t.jobs.filter p, forgotten := t.forgotten ++ t.jobs.filter (!p ·) }

/-- Forget a job; whether it was tracked. -/
def remove (t : JobTable) (id : JobId) : Bool × JobTable :=
  ((t.find? id).isSome, t.keep (·.id != id))

/-- Forget every job that has ended. -/
def cleanup (t : JobTable) : JobTable :=
  t.keep (·.state.status == .running)

/-- How a job ended, for someone who found it once. -/
def result? (t : JobTable) (id : JobId) : Option RunResult :=
  (t.started.find? (·.id == id)).bind Job.result?

/-- The answer to someone who begins to wait for a job. -/
inductive WaitPoll
  | pending
  /-- No such job is tracked. -/
  | unknown
  | result (r : RunResult)

/-- Begin to wait for a job. -/
def wait (t : JobTable) (id : JobId) : WaitPoll :=
  match t.find? id with
  | none => .unknown
  | some j =>
    match j.result? with
    | none => .pending
    | some r => .result r

/-- The results of all tracked jobs in the order of their numbers, if every one has ended. -/
def waitAll (t : JobTable) : Option (List (JobId × RunResult)) :=
  t.jobs.mapM fun j => j.result?.map (j.id, ·)

end JobTable

end DualShell
