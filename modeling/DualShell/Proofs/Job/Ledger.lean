import Mathlib.Data.List.Forall2
import Mathlib.Data.List.Induction
import Mathlib.Data.List.Nodup
import DualShell.Job.Table

/-!
# Books of jobs

What a table of jobs tells can be read off what was done with it. A job is tracked from its start on, until someone
drops it by its number or drops all that have ended (`JobAction.Drops`), and it stands as it first ended
(`JobAction.stateAfter`). What an action makes of one tracked job is said once (`JobAction.carry?`,
`JobTable.act_jobs`); so every action keeps the books (`JobTable.Books.act`), and they are right after any actions in
any order (`JobTable.accounted`).
-/

namespace DualShell

/-- An end leaves a job alone, unless the job was running. -/
theorem Job.settled_eq (j : Job) (id : JobId) (s : JobState) :
    j.settled id s = j ∨ j.state = .running ∧ j.settled id s = { j with state := s } := by
  unfold Job.settled
  split
  · split
    · rename_i hrunning
      exact .inr ⟨hrunning, rfl⟩
    · exact .inl rfl
  · exact .inl rfl

/-- A job that is settled keeps its number. -/
theorem Job.settled_id (j : Job) (id : JobId) (s : JobState) : (j.settled id s).id = j.id := by
  rcases j.settled_eq id s with h | ⟨-, h⟩ <;> rw [h]

/-! ## Actions -/

/-- Something that is done with a table of jobs, or that happens to one of its jobs. -/
inductive JobAction
  | spawn (command : String)
  | finish (id : JobId) (r : RunResult)
  | lose (id : JobId)
  | wait (id : JobId)
  | waitAll
  | list
  | get (id : JobId)
  | running
  | remove (id : JobId)
  | cleanup

namespace JobAction

/-- The type of the answer. -/
abbrev Answer : JobAction → Type
  | spawn _ => JobId
  | wait _ => JobTable.WaitPoll
  | waitAll => Option (List (JobId × RunResult))
  | list => List JobInfo
  | get _ => Option JobInfo
  | running => Nat
  | remove _ => Bool
  | finish .. | lose _ | cleanup => Unit

/-- Whether a job is started. -/
def isSpawn : JobAction → Bool
  | spawn _ => true
  | _ => false

/-- Whether the table is only asked. -/
def isQuestion : JobAction → Bool
  | wait _ | waitAll | list | get _ | running => true
  | spawn _ | finish .. | lose _ | remove _ | cleanup => false

/-- The end of a job in an action. -/
def ending? (id : JobId) : JobAction → Option JobState
  | finish i r => if i == id then some (.finished r) else none
  | lose i => if i == id then some .lost else none
  | _ => none

/-- The first end of a job in some actions. -/
def firstEnding? (id : JobId) (as : List JobAction) : Option JobState := as.findSome? (ending? id)

/-- How a job stands some actions after its start. -/
def stateAfter (id : JobId) (as : List JobAction) : JobState := (firstEnding? id as).getD .running

/-- A job is dropped by its number, or once it has ended along with all others that have. -/
def Drops (id : JobId) (as : List JobAction) : Prop :=
  .remove id ∈ as ∨ ∃ before after, as = before ++ .cleanup :: after ∧ (firstEnding? id before).isSome

/-- What an action makes of a tracked job, unless it drops it. -/
def carry? (a : JobAction) (j : Job) : Option Job :=
  match a with
  | finish id r => some (j.settled id (.finished r))
  | lose id => some (j.settled id .lost)
  | remove id => if j.id != id then some j else none
  | cleanup => if j.state.status == .running then some j else none
  | _ => some j

/-- An action leaves a job its number and its text. -/
theorem carry?_same {a : JobAction} {j j' : Job} (h : a.carry? j = some j') : j'.id = j.id ∧ j'.command = j.command := by
  have hset (id : JobId) (s : JobState) : (j.settled id s).id = j.id ∧ (j.settled id s).command = j.command := by
    rcases j.settled_eq id s with h | ⟨-, h⟩ <;> rw [h] <;> exact ⟨rfl, rfl⟩
  cases a with
  | finish id r => exact Option.some.inj h ▸ hset ..
  | lose id => exact Option.some.inj h ▸ hset ..
  | remove id | cleanup =>
    rw [carry?, Option.ite_none_right_eq_some] at h
    exact Option.some.inj h.2 ▸ ⟨rfl, rfl⟩
  | spawn | wait | waitAll | list | get | running => exact Option.some.inj h ▸ ⟨rfl, rfl⟩

/-- An action leaves a job as it ended. -/
theorem carry?_ended {a : JobAction} {j j' : Job} (h : a.carry? j = some j') (hs : j.state.status ≠ .running) : j' = j := by
  have hset (id : JobId) (s : JobState) : j.settled id s = j :=
    (j.settled_eq id s).resolve_right fun h => hs (congrArg JobState.status h.1)
  cases a with
  | finish id r => exact (Option.some.inj h).symm.trans (hset ..)
  | lose id => exact (Option.some.inj h).symm.trans (hset ..)
  | remove id | cleanup =>
    rw [carry?, Option.ite_none_right_eq_some] at h
    exact (Option.some.inj h.2).symm
  | spawn | wait | waitAll | list | get | running => exact (Option.some.inj h).symm

/-- What an action makes of a job, tracked or not. -/
def ages : JobAction → Job → Job
  | finish id r, j => j.settled id (.finished r)
  | lose id, j => j.settled id .lost
  | _, j => j

/-- The job that an action adds under a number. -/
def started (id : JobId) : JobAction → List Job
  | spawn command => [⟨id, command, .running⟩]
  | _ => []

end JobAction

namespace JobTable

/-- Do something with a table. -/
def act (t : JobTable) : (a : JobAction) → a.Answer × JobTable
  | .spawn command => t.spawn command
  | .finish id r => ((), t.finish id r)
  | .lose id => ((), t.lose id)
  | .wait id => (t.wait id, t)
  | .waitAll => (t.waitAll, t)
  | .list => (t.list, t)
  | .get id => (t.get? id, t)
  | .running => (t.running, t)
  | .remove id => t.remove id
  | .cleanup => ((), t.cleanup)

/-- The table after some actions. -/
def after (t : JobTable) (as : List JobAction) : JobTable := as.foldl (fun t a => (t.act a).2) t

/-- The numbers that some actions hand out. -/
def handedOut (t : JobTable) : List JobAction → List JobId
  | [] => []
  | .spawn command :: as => (t.spawn command).1 :: (t.spawn command).2.handedOut as
  | a :: as => (t.act a).2.handedOut as

/-- The job was started by one of the actions, its number is the number of starts up to then, and the actions that
followed did not drop it and left it as it stands. -/
def Tracked (as : List JobAction) (j : Job) : Prop :=
  ∃ before after, as = before ++ .spawn j.command :: after ∧ j.id = before.countP JobAction.isSpawn + 1 ∧
    ¬JobAction.Drops j.id after ∧ j.state = JobAction.stateAfter j.id after

/-! ## One action -/

/-- Actions in two parts are done one after the other. -/
theorem after_append (t : JobTable) (as bs : List JobAction) : t.after (as ++ bs) = (t.after as).after bs :=
  List.foldl_append

/-- Only a start hands out a number. -/
theorem act_next (t : JobTable) (a : JobAction) : (t.act a).2.next = t.next + [a].countP JobAction.isSpawn := by
  cases a <;> rfl

/-- What an action does to the tracked jobs. -/
theorem act_jobs (t : JobTable) (a : JobAction) : (t.act a).2.jobs = t.jobs.filterMap a.carry? ++ a.started t.next := by
  cases a with
  | spawn command => exact congrArg (· ++ _) (List.filterMap_some ..).symm
  | finish id r => exact .trans (congrFun List.filterMap_eq_map' _).symm (List.append_nil _).symm
  | lose id => exact .trans (congrFun List.filterMap_eq_map' _).symm (List.append_nil _).symm
  | remove id => exact .trans (congrFun List.filterMap_eq_filter _).symm (List.append_nil _).symm
  | cleanup => exact .trans (congrFun List.filterMap_eq_filter _).symm (List.append_nil _).symm
  | wait | waitAll | list | get | running => exact .trans (List.filterMap_some ..).symm (List.append_nil _).symm

/-- What an action does to all jobs: those that it forgets are there still. -/
theorem mem_started_act {t : JobTable} {a : JobAction} {j : Job} :
    j ∈ (t.act a).2.started ↔ (∃ j₀ ∈ t.started, a.ages j₀ = j) ∨ j ∈ a.started t.next := by
  have hkeep (p : Job → Bool) : j ∈ (t.keep p).started ↔ j ∈ t.started := by
    simp only [started, keep, List.mem_append, List.mem_filter]
    cases p j <;> simp [or_comm]
  have hsettle (id : JobId) (s : JobState) : j ∈ (t.settle id s).started ↔ ∃ j₀ ∈ t.started, j₀.settled id s = j := by
    rw [started, settle, ← List.map_append]
    exact List.mem_map
  cases a with
  | spawn command =>
    simp only [act, spawn, started, JobAction.ages, JobAction.started, List.mem_append, exists_eq_right]
    exact or_right_comm
  | finish id r => exact (hsettle id _).trans (or_iff_left List.not_mem_nil).symm
  | lose id => exact (hsettle id _).trans (or_iff_left List.not_mem_nil).symm
  | remove id => simpa [act, remove, JobAction.ages, JobAction.started] using hkeep _
  | cleanup => simpa [act, cleanup, JobAction.ages, JobAction.started] using hkeep _
  | wait | waitAll | list | get | running => simp [act, JobAction.ages, JobAction.started]

/-- A job that was started stays, tracked or not. -/
theorem exists_started_after {t : JobTable} {j : Job} (h : j ∈ t.started) (as : List JobAction) :
    ∃ j' ∈ (t.after as).started, j'.id = j.id := by
  induction as generalizing t j with
  | nil => exact ⟨j, h, rfl⟩
  | cons a as ih =>
    have hid : (a.ages j).id = j.id := by
      cases a with
      | finish id r => exact j.settled_id id (.finished r)
      | lose id => exact j.settled_id id .lost
      | _ => rfl
    obtain ⟨j', hj', hid'⟩ := ih (mem_started_act.2 (.inl ⟨j, h, rfl⟩))
    exact ⟨j', hj', hid'.trans hid⟩

/-- What jobs have left is what they ended with, whatever is done with the table. -/
theorem forall_started_act {R : RunResult → Prop} {t : JobTable} {a : JobAction}
    (h : ∀ j ∈ t.started, ∀ r, j.state = .finished r → R r)
    (ha : ∀ id r, a = .finish id r → R r) : ∀ j ∈ (t.act a).2.started, ∀ r, j.state = .finished r → R r := by
  intro j hj r hr
  rcases mem_started_act.1 hj with ⟨j₀, hj₀, rfl⟩ | hnew
  · have hold := h j₀ hj₀ r
    cases a with
    | finish id r' =>
      rcases j₀.settled_eq id (.finished r') with heq | ⟨-, heq⟩ <;> rw [JobAction.ages, heq] at hr
      · exact hold hr
      · cases hr
        exact ha id r rfl
    | lose id =>
      rcases j₀.settled_eq id .lost with heq | ⟨-, heq⟩ <;> rw [JobAction.ages, heq] at hr
      · exact hold hr
      · cases hr
    | _ => exact hold hr
  · cases a <;> simp only [JobAction.started, List.not_mem_nil, List.mem_singleton] at hnew
    subst hnew
    cases hr

/-- The result that is told is that of a job which was started. -/
theorem exists_of_result? {t : JobTable} {id : JobId} {r : RunResult} (h : t.result? id = some r) :
    ∃ j ∈ t.started, j.id = id ∧ j.result? = some r := by
  obtain ⟨j, hfind, hr⟩ := Option.bind_eq_some_iff.1 h
  exact ⟨j, List.mem_of_find?_eq_some hfind, by simpa using List.find?_some hfind, hr⟩

/-- A result that is told is one that a job ended with, unless it is that of a job that was lost. -/
theorem of_result? {R : RunResult → Prop} {t : JobTable} {id : JobId} {r : RunResult}
    (h : ∀ j ∈ t.started, ∀ r, j.state = .finished r → R r)
    (hlost : ∀ text, R (.ofException (.ofCause (.io text)))) (hr : t.result? id = some r) : R r := by
  obtain ⟨j, hj, -, hresult⟩ := exists_of_result? hr
  unfold Job.result? at hresult
  split at hresult
  · nomatch hresult
  · rename_i hstate
    exact h j hj r (hstate.trans (congrArg _ (Option.some.inj hresult)))
  · exact Option.some.inj hresult ▸ hlost _

/-- A job that was started and of which nothing is told is running. -/
theorem running_of_result? {t : JobTable} {j : Job} (hj : j ∈ t.started) (h : t.result? j.id = none) :
    ∃ j' ∈ t.started, j'.id = j.id ∧ j'.result? = none := by
  obtain ⟨j', hfind⟩ :=
    Option.isSome_iff_exists.1 ((List.find?_isSome (p := fun j' : Job => j'.id == j.id)).2 ⟨j, hj, beq_self_eq_true j.id⟩)
  rw [result?, hfind] at h
  exact ⟨j', List.mem_of_find?_eq_some hfind, by simpa using List.find?_some hfind, h⟩

end JobTable

/-! ## One job -/

namespace JobAction

/-- The first ending of a job in one action more is the one it had, or this one. -/
theorem firstEnding?_snoc (id : JobId) (as : List JobAction) (a : JobAction) :
    firstEnding? id (as ++ [a]) = (firstEnding? id as).or (ending? id a) := by
  rw [firstEnding?, List.findSome?_append, List.findSome?_singleton]
  rfl

theorem ending?_ne_running {id : JobId} {a : JobAction} : ending? id a ≠ some .running := by
  cases a <;> simp [ending?]

/-- Ends are ends. -/
theorem firstEnding?_ne_running {id : JobId} {as : List JobAction} : firstEnding? id as ≠ some .running := fun h =>
  have ⟨_, _, ha⟩ := List.exists_of_findSome?_eq_some h
  ending?_ne_running ha

/-- A later end changes nothing. -/
theorem stateAfter_snoc (id : JobId) (as : List JobAction) (a : JobAction) :
    stateAfter id (as ++ [a]) =
      match stateAfter id as with
      | .running => (ending? id a).getD .running
      | s => s := by
  have hrun : firstEnding? id as ≠ some .running := firstEnding?_ne_running
  rw [stateAfter, stateAfter, firstEnding?_snoc]
  generalize firstEnding? id as = e at hrun
  obtain _ | _ | _ | _ := e
  · rfl
  · exact absurd rfl hrun
  · rfl
  · rfl

/-- A job has an ending if it is not running any more. -/
theorem firstEnding?_isSome {id : JobId} {as : List JobAction} :
    (firstEnding? id as).isSome = (!(stateAfter id as).status == .running) := by
  have hrun : firstEnding? id as ≠ some .running := firstEnding?_ne_running
  rw [stateAfter]
  generalize firstEnding? id as = e at hrun
  obtain _ | _ | r | _ := e
  · rfl
  · exact absurd rfl hrun
  · simp only [JobState.status, Option.isSome, Option.getD]
    split <;> rfl
  · rfl

/-- A job is dropped by one of the actions or by the last one. -/
theorem drops_snoc (id : JobId) (as : List JobAction) (a : JobAction) :
    Drops id (as ++ [a]) ↔ Drops id as ∨ a = .remove id ∨ a = .cleanup ∧ (firstEnding? id as).isSome := by
  constructor
  · rintro (h | ⟨before, after, heq, h⟩)
    · obtain h | h := List.mem_append.mp h
      · exact .inl (.inl h)
      · exact .inr (.inl (List.mem_singleton.mp h).symm)
    · obtain rfl | ⟨after, b, rfl⟩ := after.eq_nil_or_concat'
      · obtain ⟨rfl, rfl⟩ := List.append_singleton_inj.mp heq
        exact .inr (.inr ⟨rfl, h⟩)
      · rw [← List.cons_append, ← List.append_assoc] at heq
        obtain ⟨rfl, -⟩ := List.append_singleton_inj.mp heq
        exact .inl (.inr ⟨before, after, rfl, h⟩)
  · rintro ((h | ⟨before, after, rfl, h⟩) | rfl | ⟨rfl, h⟩)
    · exact .inl (List.mem_append_left _ h)
    · exact .inr ⟨before, after ++ [a], by simp, h⟩
    · exact .inl (List.mem_append_right _ (List.mem_singleton_self _))
    · exact .inr ⟨as, [], rfl, h⟩

/-- What an action makes of a job that stands as the actions since its start left it. -/
theorem carry?_eq_some {a : JobAction} {as : List JobAction} {j j' : Job} (hs : j.state = stateAfter j.id as)
    (hd : ¬Drops j.id as) :
    a.carry? j = some j' ↔ ¬Drops j.id (as ++ [a]) ∧ { j with state := stateAfter j.id (as ++ [a]) } = j' := by
  obtain ⟨id, command, state⟩ := j
  simp only at hs hd
  subst hs
  simp only [drops_snoc, hd, false_or, stateAfter_snoc, firstEnding?_isSome]
  generalize stateAfter id as = state
  cases a with
  | spawn | wait | waitAll | list | get | running => cases state <;> simp [carry?, ending?]
  | finish i r =>
    obtain rfl | h := eq_or_ne i id
    · cases state <;> simp [carry?, Job.settled, ending?]
    · cases state <;> simp [carry?, Job.settled, ending?, h, h.symm]
  | lose i =>
    obtain rfl | h := eq_or_ne i id
    · cases state <;> simp [carry?, Job.settled, ending?]
    · cases state <;> simp [carry?, Job.settled, ending?, h, h.symm]
  | remove i =>
    obtain rfl | h := eq_or_ne i id
    · simp [carry?]
    · cases state <;> simp [carry?, ending?, h, h.symm]
  | cleanup => by_cases h : state.status = .running <;> cases state <;> simp_all [carry?, ending?]

end JobAction

namespace JobTable

/-! ## All actions -/

variable {t : JobTable} {as bs : List JobAction} {a : JobAction} {j j' : Job} {id : JobId}

/-- The number of a tracked job was handed out. -/
theorem Tracked.id_le (h : Tracked as j) : j.id ≤ as.countP JobAction.isSpawn := by
  obtain ⟨before, after, rfl, hid, -, -⟩ := h
  rw [hid, List.countP_append, List.countP_cons_of_pos rfl]
  exact Nat.add_le_add_left (Nat.le_add_left ..) _

/-- A job is tracked after one action more if it was carried through it, or is started by it. -/
theorem tracked_snoc :
    Tracked (as ++ [a]) j ↔ (∃ j₀, Tracked as j₀ ∧ a.carry? j₀ = some j) ∨
    j ∈ a.started (as.countP JobAction.isSpawn + 1) := by
  constructor
  · rintro ⟨before, after, heq, hid, hd, hs⟩
    obtain rfl | ⟨after, b, rfl⟩ := after.eq_nil_or_concat'
    · obtain ⟨rfl, rfl⟩ := List.append_singleton_inj.mp heq
      obtain ⟨_, command, _⟩ := j
      simp only at hid hs
      subst hid hs
      exact .inr (List.mem_singleton_self _)
    · rw [← List.cons_append, ← List.append_assoc] at heq
      obtain ⟨rfl, rfl⟩ := List.append_singleton_inj.mp heq
      have hd' : ¬JobAction.Drops j.id after := fun h => hd ((JobAction.drops_snoc ..).mpr (.inl h))
      refine .inl ⟨{ j with state := JobAction.stateAfter j.id after }, ⟨before, after, rfl, hid, hd', rfl⟩, ?_⟩
      exact (JobAction.carry?_eq_some (j := ⟨j.id, j.command, JobAction.stateAfter j.id after⟩) rfl hd').mpr ⟨hd,
        by rw [← hs]⟩
  · rintro (⟨j₀, ⟨before, after, rfl, hid, hd, hs⟩, hc⟩ | h)
    · obtain ⟨hd, rfl⟩ := (JobAction.carry?_eq_some hs hd).mp hc
      exact ⟨before, after ++ [a], by simp, hid, hd, rfl⟩
    · cases a <;> simp only [JobAction.started, List.not_mem_nil, List.mem_singleton] at h
      subst h
      exact ⟨as, [], rfl, rfl, by simp [JobAction.Drops], rfl⟩

/-- The books of a table agree with some actions. -/
structure Books (t : JobTable) (as : List JobAction) : Prop where
  next : t.next = as.countP JobAction.isSpawn + 1
  ordered : t.jobs.Pairwise (·.id < ·.id)
  tracked : ∀ j, j ∈ t.jobs ↔ Tracked as j

namespace Books

/-- The empty table is that of no actions. -/
theorem empty : empty.Books [] where
  next := rfl
  ordered := .nil
  tracked j := by simp [JobTable.empty, Tracked]

/-- One action more keeps the books. -/
theorem act (h : t.Books as) (a : JobAction) : (t.act a).2.Books (as ++ [a]) where
  next := by
    rw [act_next, h.next, List.countP_append]
    exact Nat.add_right_comm ..
  ordered := by
    rw [act_jobs, List.pairwise_append]
    refine ⟨h.ordered.filterMap _ fun i j hlt i' hi j' hj => ?_, ?_, fun j hj i hi => ?_⟩
    · rw [(JobAction.carry?_same hi).1, (JobAction.carry?_same hj).1]
      exact hlt
    · cases a <;> simp [JobAction.started]
    · obtain ⟨j₀, hj₀, hc⟩ := List.mem_filterMap.mp hj
      cases a <;> simp only [JobAction.started, List.not_mem_nil, List.mem_singleton] at hi
      rw [(JobAction.carry?_same hc).1, hi, h.next]
      exact Nat.lt_succ_of_le ((h.tracked j₀).mp hj₀).id_le
  tracked j := by
    rw [act_jobs, List.mem_append, List.mem_filterMap, tracked_snoc, h.next]
    simp only [h.tracked]

/-- So do several. -/
theorem after (h : t.Books as) (bs : List JobAction) : (t.after bs).Books (as ++ bs) := by
  induction bs generalizing t as with
  | nil => exact (List.append_nil as).symm ▸ h
  | cons a bs ih =>
    rw [List.append_cons]
    exact ih (h.act a)

/-- The numbers that are handed out are the next ones, in order. -/
theorem handedOut (h : t.Books as) (bs : List JobAction) :
    t.handedOut bs = List.range' (as.countP JobAction.isSpawn + 1) (bs.countP JobAction.isSpawn) := by
  induction bs generalizing t as with
  | nil => rfl
  | cons a bs ih =>
    have ha := ih (h.act a)
    rw [List.countP_append] at ha
    cases a with
    | spawn command =>
      rw [List.countP_cons_of_pos rfl, List.range'_succ, ← h.next]
      exact congrArg (t.next :: ·) (h.next ▸ ha)
    | _ => exact ha

/-- A tracked job is the only one of its number. -/
theorem find?_eq_some (h : t.Books as) : t.find? id = some j ↔ Tracked as j ∧ j.id = id := by
  have hunique := List.inj_on_of_nodup_map (List.Pairwise.map Job.id (fun _ _ => Nat.ne_of_lt) h.ordered)
  have hfound {j : Job} (hf : t.jobs.find? (·.id == id) = some j) : j ∈ t.jobs ∧ j.id = id :=
    ⟨List.mem_of_find?_eq_some hf, by simpa using List.find?_some hf⟩
  constructor
  · intro hf
    exact ⟨(h.tracked j).mp (hfound hf).1, (hfound hf).2⟩
  · rintro ⟨hj, hid⟩
    have hmem := (h.tracked j).mpr hj
    obtain ⟨j', hf⟩ :=
      Option.isSome_iff_exists.mp ((List.find?_isSome (p := fun j : Job => j.id == id)).mpr ⟨j, hmem, beq_iff_eq.mpr hid⟩)
    exact hf.trans (congrArg some (hunique (hfound hf).1 hmem ((hfound hf).2.trans hid.symm)))

/-- A number is not found if no tracked job has it. -/
theorem find?_eq_none (h : t.Books as) : t.find? id = none ↔ ∀ j, Tracked as j → j.id ≠ id := by
  simp only [JobTable.find?, List.find?_eq_none, h.tracked, beq_iff_eq]

/-- The list tells of the jobs that are tracked. -/
theorem mem_list (h : t.Books as) {info : JobInfo} : info ∈ t.list ↔ ∃ j, Tracked as j ∧ j.info = info := by
  simp only [list, List.mem_map, h.tracked]

/-- Someone who waits for a tracked job is told how it ended. -/
theorem wait (h : t.Books as) (hj : Tracked as j) :
    t.wait j.id =
      match j.result? with
      | none => .pending
      | some r => .result r := by
  have hfound : t.find? j.id = some j := h.find?_eq_some.mpr ⟨hj, rfl⟩
  cases hresult : j.result? <;> simp only [JobTable.wait, hfound, hresult]

/-- To wait for a number that no tracked job has is refused. -/
theorem wait_unknown (h : t.Books as) : t.wait id = .unknown ↔ ∀ j, Tracked as j → j.id ≠ id := by
  rw [← h.find?_eq_none, JobTable.wait]
  cases t.find? id with
  | none => exact iff_of_true rfl rfl
  | some j => cases hr : j.result? <;> simp [hr]

/-- To wait for a job that has ended gives its result. -/
theorem wait_result (h : t.Books as) {r : RunResult} :
    t.wait id = .result r ↔ ∃ j, Tracked as j ∧ j.id = id ∧ j.result? = some r := by
  constructor
  · intro hw
    rw [JobTable.wait] at hw
    cases hf : t.find? id with
    | none => simp [hf] at hw
    | some j =>
      cases hr : j.result? with
      | none => simp [hf, hr] at hw
      | some r' =>
        simp only [hf, hr, WaitPoll.result.injEq] at hw
        exact ⟨j, (h.find?_eq_some.mp hf).1, (h.find?_eq_some.mp hf).2, hr.trans (congrArg some hw)⟩
  · rintro ⟨j, hj, rfl, hr⟩
    rw [h.wait hj, hr]

end Books

/-- What becomes of a tracked job. -/
theorem Tracked.onward (hj : Tracked as j) (hj' : Tracked (as ++ bs) j') (hid : j'.id = j.id) :
    j'.command = j.command ∧ (j.state.status ≠ .running → j' = j) := by
  induction bs using List.reverseRecOn generalizing j' with
  | nil =>
    rw [List.append_nil] at hj'
    have hb := Books.empty.after as
    have := (hb.find?_eq_some.mpr ⟨hj', hid⟩).symm.trans (hb.find?_eq_some.mpr ⟨hj, rfl⟩)
    cases this
    exact ⟨rfl, fun _ => rfl⟩
  | append_singleton bs a ih =>
    rw [← List.append_assoc, tracked_snoc] at hj'
    obtain ⟨j₀, hj₀, hc⟩ | hnew := hj'
    · obtain ⟨hid₀, hcommand₀⟩ := JobAction.carry?_same hc
      obtain ⟨hcommand, hend⟩ := ih hj₀ (hid₀.symm.trans hid)
      refine ⟨hcommand₀.trans hcommand, fun hs => ?_⟩
      obtain rfl := hend hs
      exact JobAction.carry?_ended hc hs
    · cases a <;> simp only [JobAction.started, List.not_mem_nil, List.mem_singleton] at hnew
      have hle := hj.id_le
      rw [← hid, hnew, List.countP_append] at hle
      exact absurd hle (Nat.not_le.mpr (Nat.lt_succ_of_le (Nat.le_add_right ..)))

/-- Results of all jobs are had if each has one. -/
theorem mapM_result {js : List Job} {rs : List (JobId × RunResult)} :
    (js.mapM fun j => j.result?.map (j.id, ·)) = some rs ↔
    List.Forall₂ (fun j r => j.id = r.1 ∧ j.result? = some r.2) js rs := by
  induction js generalizing rs with
  | nil => simp [List.forall₂_nil_left_iff, eq_comm]
  | cons j js ih =>
    rw [List.mapM_cons, List.forall₂_cons_left_iff]
    simp only [← ih]
    cases j.result? with
    | none => simp
    | some r =>
      cases js.mapM fun j => j.result?.map (j.id, ·) with
      | none => simp
      | some rs => simp [eq_comm]

/-- The answers of a table agree with the actions that led to it. -/
structure Accounted (as : List JobAction) : Prop where
  /-- Numbers are handed out from 1 on, none of them twice. -/
  numbers : empty.handedOut as = List.range' 1 (as.countP JobAction.isSpawn)
  /-- The list tells of the tracked jobs, by their numbers. -/
  listed : ∀ info, info ∈ (empty.after as).list ↔ ∃ j, Tracked as j ∧ j.info = info
  ordered : (empty.after as).list.Pairwise (·.id < ·.id)
  /-- A job keeps its text, and its status once it is not running. -/
  onward : ∀ bs, ∀ info ∈ (empty.after as).list, ∀ later ∈ (empty.after (as ++ bs)).list, later.id = info.id →
    later.command = info.command ∧ (info.status ≠ .running → later.status = info.status)
  /-- Someone who waits is told how the job first ended. -/
  awaited : ∀ j, Tracked as j → (empty.after as).wait j.id =
    match j.state with
    | .running => .pending
    | .finished r => .result r
    | .lost => .result (.ofException (.ofCause (.io s!"job {j.id} ended without a result")))
  unknown : ∀ id, (empty.after as).wait id = .unknown ↔ ∀ info ∈ (empty.after as).list, info.id ≠ id
  /-- The status agrees with the result. -/
  running : ∀ info ∈ (empty.after as).list, info.status = .running ↔ (empty.after as).wait info.id = .pending
  done : ∀ info ∈ (empty.after as).list,
    info.status = .done ↔ ∃ r, (empty.after as).wait info.id = .result r ∧ r.exception = none
  failed : ∀ info ∈ (empty.after as).list,
    info.status = .failed ↔ ∃ r e, (empty.after as).wait info.id = .result r ∧ r.exception = some e
  /-- A result stays as long as the job is tracked. -/
  settled : ∀ bs id r, (empty.after as).wait id = .result r →
    (empty.after (as ++ bs)).wait id = .result r ∨ (empty.after (as ++ bs)).wait id = .unknown
  /-- To ask changes nothing. -/
  asked : ∀ a, a.isQuestion → ((empty.after as).act a).2 = empty.after as
  /-- A cleanup leaves the jobs that run, a removal those of other numbers. -/
  cleaned : (empty.after as).cleanup.list = (empty.after as).list.filter (·.status == .running)
  removed : ∀ id, ((empty.after as).remove id).2.list = (empty.after as).list.filter (·.id != id) ∧
    ((empty.after as).remove id).1 = (empty.after as).list.any (·.id == id)
  /-- The other questions agree with the list. -/
  got : ∀ id, (empty.after as).get? id = (empty.after as).list.find? (·.id == id)
  counted : (empty.after as).running = (empty.after as).list.countP (·.status == .running)
  together : ∀ rs, (empty.after as).waitAll = some rs ↔
    List.Forall₂ (fun info r => info.id = r.1 ∧ (empty.after as).wait info.id = .result r.2) (empty.after as).list rs

namespace Books

/-- To wait for all gives what waiting for each would give. -/
theorem waitAll (h : t.Books as) {rs : List (JobId × RunResult)} :
    t.waitAll = some rs ↔ List.Forall₂ (fun info r => info.id = r.1 ∧ t.wait info.id = .result r.2) t.list rs := by
  have hresult : ∀ j ∈ t.jobs, ∀ r, j.result? = some r ↔ t.wait j.id = .result r := by
    intro j hj r
    rw [h.wait ((h.tracked j).mp hj)]
    cases j.result? <;> simp
  rw [JobTable.waitAll, mapM_result, list, List.forall₂_map_left_iff]
  generalize t.jobs = js at hresult
  induction js generalizing rs with
  | nil => simp only [List.forall₂_nil_left_iff]
  | cons j js ih =>
    simp only [List.forall₂_cons_left_iff, ih fun j hj => hresult j (List.mem_cons_of_mem _ hj),
      hresult j List.mem_cons_self]
    rfl

/-- The word for how a tracked job stands agrees with the result. -/
theorem status (h : t.Books as) (hj : Tracked as j) :
    (j.state.status = .running ↔ t.wait j.id = .pending) ∧
    (j.state.status = .done ↔ ∃ r, t.wait j.id = .result r ∧ r.exception = none) ∧
    (j.state.status = .failed ↔ ∃ r e, t.wait j.id = .result r ∧ r.exception = some e) := by
  rw [h.wait hj, Job.result?]
  cases j.state with
  | running => simp [JobState.status]
  | lost => simp [JobState.status, RunResult.ofException]
  | finished r => cases hr : r.exception <;> simp [JobState.status, RunResult.ok, hr]

end Books

/-- Whatever is done with a table, and whatever happens to its jobs, in whatever order: its answers tell what was done. -/
theorem accounted (as : List JobAction) : Accounted as := by
  have h : (empty.after as).Books as := Books.empty.after as
  have hlater (bs : List JobAction) : (empty.after (as ++ bs)).Books (as ++ bs) := Books.empty.after (as ++ bs)
  refine {
    numbers := Books.empty.handedOut as
    listed := fun info => h.mem_list
    ordered := List.Pairwise.map Job.info (fun _ _ => id) h.ordered
    onward := fun bs info hinfo later hl hid => ?_
    awaited := fun j hj => ?_
    unknown := fun id => ?_
    running := fun info hinfo => ?_
    done := fun info hinfo => ?_
    failed := fun info hinfo => ?_
    settled := fun bs id r hr => ?_
    asked := fun a ha => by cases a <;> first | rfl | exact absurd ha nofun
    cleaned := by rw [list, list, List.filter_map]; rfl
    removed := fun id => ⟨by rw [list, list, List.filter_map]; rfl, ?_⟩
    got := fun id => by rw [list, List.find?_map]; rfl
    counted := ?_
    together := fun rs => h.waitAll }
  · obtain ⟨j, hj, rfl⟩ := h.mem_list.mp hinfo
    obtain ⟨j', hj', rfl⟩ := (hlater bs).mem_list.mp hl
    obtain ⟨hcommand, hend⟩ := hj.onward hj' hid
    exact ⟨hcommand, fun hs => congrArg (·.state.status) (hend hs)⟩
  · rw [h.wait hj, Job.result?]
    cases j.state <;> rfl
  · rw [h.wait_unknown]
    simp only [h.mem_list, forall_exists_index, and_imp, forall_apply_eq_imp_iff₂]
    rfl
  · obtain ⟨j, hj, rfl⟩ := h.mem_list.mp hinfo
    exact (h.status hj).1
  · obtain ⟨j, hj, rfl⟩ := h.mem_list.mp hinfo
    exact (h.status hj).2.1
  · obtain ⟨j, hj, rfl⟩ := h.mem_list.mp hinfo
    exact (h.status hj).2.2
  · obtain ⟨j, hj, rfl, hres⟩ := h.wait_result.mp hr
    by_cases hgone : ∀ j', Tracked (as ++ bs) j' → j'.id ≠ j.id
    · exact .inr ((hlater bs).wait_unknown.mpr hgone)
    · push Not at hgone
      obtain ⟨j', hj', hid⟩ := hgone
      have hs : j.state.status ≠ .running := fun hrun => by
        rw [((h.status hj).1.mp hrun)] at hr
        cases hr
      obtain rfl := (hj.onward hj' hid).2 hs
      exact .inl ((hlater bs).wait_result.mpr ⟨j', hj', rfl, hres⟩)
  · rw [list, List.any_map, Bool.eq_iff_iff, List.any_eq_true]
    exact List.find?_isSome
  · rw [JobTable.running, list, List.countP_map, List.countP_eq_length_filter]
    rfl

example : (empty.after [.spawn "a", .spawn "b", .lose 1, .cleanup, .spawn "c", .remove 2]).list =
    [⟨3, "c", .running⟩] := by decide

end JobTable

end DualShell
