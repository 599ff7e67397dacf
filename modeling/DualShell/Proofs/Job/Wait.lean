import Mathlib
import DualShell.Proofs.Job.Machine
import DualShell.Proofs.Job.Reap
import DualShell.Proofs.Machine.Served

/-!
# Waiting for jobs

Calls of `wait` on a machine that others move meanwhile (`WaitCall`). A call finds a job and then waits for its end, so
it hears of it even if others forget it meanwhile (`World.Tells`). Whatever the others do, a job that a call has
forgotten is gone for good, so over calls that follow one another no job is waited for twice (`WaitCalls.nodup`). Where
everything that is written is taken, a call brings the output of each job to where its caller writes, and raises all
failures (`WaitCalls.replay_once`). A replay that fails stops a call, and the failures of the jobs that it forgot before
that are lost with them (`WaitCall.failure_raised_or_kept`, `WaitCall.failure_lost`).
-/

namespace DualShell

open Eval

/-! ## Jobs that are gone -/

namespace JobTable

/-- A job of the number was started, and is not tracked any more. -/
structure Gone (t : JobTable) (id : JobId) : Prop where
  handedOut : id < t.next
  untracked : ∀ j ∈ t.jobs, j.id ≠ id

variable {t : JobTable} {id : JobId}

/-- Numbers are not handed out again. -/
theorem Gone.act (h : t.Gone id) (a : JobAction) : (t.act a).2.Gone id where
  handedOut := by
    rw [act_next]
    exact Nat.lt_add_right _ h.handedOut
  untracked j hj := by
    rw [act_jobs] at hj
    rcases List.mem_append.1 hj with hj | hj
    · obtain ⟨j₀, hj₀, hc⟩ := List.mem_filterMap.1 hj
      rw [(JobAction.carry?_same hc).1]
      exact h.untracked j₀ hj₀
    · cases a <;> simp only [JobAction.started, List.not_mem_nil, List.mem_singleton] at hj
      subst hj
      exact Nat.ne_of_gt h.handedOut

/-- A number that is gone stays gone. -/
theorem Gone.after (h : t.Gone id) (as : List JobAction) : (t.after as).Gone id := by
  induction as generalizing t with
  | nil => exact h
  | cons a as ih => exact ih (h.act a)

/-- A job that is removed is gone. -/
theorem Gone.remove (h : id < t.next) : (t.remove id).2.Gone id :=
  ⟨h, fun j hj => by simpa using (List.mem_filter.1 hj).2⟩

/-- A number that is gone is not found. -/
theorem Gone.find? (h : t.Gone id) : t.find? id = none := List.find?_eq_none.2 fun j hj => by simpa using h.untracked j hj

/-- The job that is found under a number. -/
theorem mem_of_find? {j : Job} (h : t.find? id = some j) : j ∈ t.jobs ∧ j.id = id :=
  ⟨List.mem_of_find?_eq_some h, by simpa using List.find?_some h⟩

/-- A number is found if a tracked job has it. -/
theorem find?_isSome : (t.find? id).isSome ↔ ∃ j ∈ t.jobs, j.id = id := by
  simp only [JobTable.find?, List.find?_isSome, beq_iff_eq]

/-- Of a tracked job it is told how it ended. -/
theorem result?_of_find? {j : Job} (h : t.find? id = some j) : t.result? id = j.result? := by
  have hfind : t.started.find? (·.id == id) = some j := by
    rw [started, List.find?_append]
    exact congrArg (fun found : Option Job => found.or _) h
  rw [result?, hfind, Option.bind_some]

/-- The numbers of tracked jobs were handed out. -/
theorem Made.id_lt (h : t.Made) {j : Job} (hj : j ∈ t.jobs) : j.id < t.next := by
  obtain ⟨as, rfl⟩ := h
  have hbooks := Books.empty.after as
  rw [hbooks.next]
  exact Nat.lt_succ_of_le ((hbooks.tracked j).1 hj).id_le

/-- No two tracked jobs have the same number. -/
theorem Made.nodup (h : t.Made) : (t.list.map (·.id)).Nodup := by
  obtain ⟨as, rfl⟩ := h
  exact List.Pairwise.map _ (fun _ _ => Nat.ne_of_lt) (accounted as).ordered

end JobTable

namespace World

variable {w w' w'' : World} {k : KernelId} {id : JobId}

/-- The kernel tracks a job of the number. -/
def Tracks (w : World) (k : KernelId) (id : JobId) : Prop := ∃ j ∈ (w.jobs k).jobs, j.id = id

/-- Between two states of the machine someone found a job, and was told then how it ended. -/
def Tells (k : KernelId) (w w' : World) (p : JobId × RunResult) : Prop := ∃ v v', w.Leads v ∧ v.Tracks k p.1 ∧ v.Leads v' ∧
  (v'.jobs k).result? p.1 = some p.2 ∧ v'.Leads w'

/-- Where deeds lead, jobs are worked on by actions. -/
theorem Leads.worksOn (h : w.Leads w') : w.WorksOn w' := by
  induction h with
  | refl => exact .refl w
  | tail _ hmove ih =>
    obtain ⟨p, ds, p', hs, rfl, rfl⟩ := hmove
    exact ih.trans (.step hs)

/-- The books are kept wherever deeds lead. -/
theorem Booked.leads (h : w.Booked) (hw : w.Leads w') : w'.Booked := h.worksOn (Leads.worksOn hw)

/-- A number that is gone is gone wherever deeds lead. -/
theorem gone_of_leads (h : (w.jobs k).Gone id) (hw : w.Leads w') : (w'.jobs k).Gone id := by
  obtain ⟨as, has⟩ := Leads.worksOn hw k
  exact has ▸ h.after as

/-- Numbers are handed out upwards. -/
theorem next_le_of_leads (hw : w.Leads w') : (w.jobs k).next ≤ (w'.jobs k).next := (Leads.worksOn hw).next_le k

/-- To forget a job removes it. -/
theorem perform_forgetJob {who : TaskId} {u : Unit} (h : w.perform who (.forgetJob k id) = (some u, w')) :
    w'.jobs k = ((w.jobs k).remove id).2 := by
  cases h
  rw [jobs_setJobs]
  split
  · rfl
  · rename_i hnone
    have hempty : w.jobs k = .empty := by
      unfold World.jobs
      cases hk : w.kernel? k with
      | none => rfl
      | some kernel => simp [hk] at hnone
    rw [hempty]
    rfl

/-- Whether a job is found says whether it is tracked, and changes nothing. -/
theorem perform_findJob {who : TaskId} {found : Bool} (h : w.perform who (.findJob k id) = (some found, w')) :
    w' = w ∧ (found = true ↔ w.Tracks k id) := by
  cases h
  exact ⟨rfl, JobTable.find?_isSome⟩

/-- A job that is told of has its result, and telling changes nothing. -/
theorem perform_waitJob {who : TaskId} {r : RunResult} (h : w.perform who (.waitJob k id) = (some r, w')) :
    w' = w ∧ (w.jobs k).result? id = some r :=
  ⟨(congrArg Prod.snd h).symm, congrArg Prod.fst h⟩

/-- A number that is gone is not tracked. -/
theorem not_tracks_of_gone (h : (w.jobs k).Gone id) : ¬w.Tracks k id := fun ⟨j, hj, hid⟩ => h.untracked j hj hid

/-- A job that is told of was not gone. -/
theorem Tells.not_gone {p : JobId × RunResult} (h : Tells k w w' p) : ¬(w.jobs k).Gone p.1 := fun hgone => by
  obtain ⟨v, -, hv, htracks, -⟩ := h
  exact not_tracks_of_gone (gone_of_leads hgone hv) htracks

/-- What is told in the course of some deeds is told in the course of more. -/
theorem Tells.within {v v' : World} {p : JobId × RunResult} (h : Tells k v v' p) (hv : w.Leads v) (hv' : v'.Leads w') :
    Tells k w w' p := by
  obtain ⟨u, u', hu, htracks, hu', hr, hlast⟩ := h
  exact ⟨u, u', hv.trans hu, htracks, hu', hr, hlast.trans hv'⟩

end World

namespace World.Serves

variable {Others : World → World → Prop} {who : TaskId} {w w' : World} {es : List Exchange} {k : KernelId} {id : JobId}
    {r : RunResult}

/-- Who hears how a job ended has found it before. -/
theorem tells (ho : ∀ {v v'}, Others v v' → v.Leads v') (h : w.Serves Others who (inquiry k (id, some r)) w') :
    Tells k w w' (id, r) := by
  obtain ⟨v, v₁, hv, hfind, hrest⟩ := h.first
  obtain ⟨rfl, hfound⟩ := perform_findJob hfind
  obtain ⟨v', v₂, hv', hwait, hlast⟩ := hrest.first
  obtain ⟨rfl, hr⟩ := perform_waitJob hwait
  exact ⟨v₁, v₂, hv.leads ho, hfound.1 rfl, hv'.leads ho, hr, hlast.leads ho⟩

/-- A job that is passed over is not tracked when its turn comes. -/
theorem misses {told : List (JobId × Option RunResult)} (h : w.Serves Others who (told.flatMap (inquiry k)) w')
    (ha : (id, none) ∈ told) :
    ∃ (before : List (JobId × Option RunResult)) (v : World) (after : List Exchange),
    w.Serves Others who (before.flatMap (inquiry k)) v ∧ ¬v.Tracks k id ∧ v.Serves Others who after w' := by
  obtain ⟨before, after, rfl⟩ := List.append_of_mem ha
  rw [List.flatMap_append, List.flatMap_cons] at h
  obtain ⟨v, hv, hrest⟩ := h.split
  obtain ⟨u, u', hu, hfind, hlast⟩ := hrest.first
  obtain ⟨rfl, hfound⟩ := perform_findJob hfind
  have hbefore := hv.append hu
  rw [List.append_nil] at hbefore
  exact ⟨before, u', _, hbefore, fun htracks => (nomatch hfound.2 htracks), hlast⟩

/-- A job that was forgotten is gone. -/
theorem gone (ho : ∀ {v v'}, Others v v' → v.Leads v') (h : w.Serves Others who es w') (hid : id < (w.jobs k).next)
    (hr : id ∈ reaped k es) : (w'.jobs k).Gone id := by
  obtain ⟨⟨r, a⟩, he, hforgets⟩ := List.mem_filterMap.1 hr
  cases r with
  | forgetJob k' id' =>
    obtain ⟨rfl, rfl⟩ : k' = k ∧ id' = id := by simpa [Exchange.forgets?] using hforgets
    obtain ⟨first, last, v, v', -, h₁, hx, h₂⟩ := h.answered he
    have hlt := Nat.lt_of_lt_of_le hid (next_le_of_leads (h₁.leads ho))
    have hgone : (v'.jobs k').Gone id' := perform_forgetJob hx ▸ .remove hlt
    exact gone_of_leads hgone (h₂.leads ho)
  | _ => cases hforgets

/-- Waiting leaves the jobs alone that it does not forget. -/
theorem tracks (ho : ∀ v v', Others v v' → v.Tracks k id → v'.Tracks k id) (h : w.Serves Others who es w')
    (hes : ∀ e ∈ es, e.IsWaiting) (hr : id ∉ reaped k es) (ht : w.Tracks k id) : w'.Tracks k id := by
  induction h with
  | nil => exact ht
  | @answer w w₁ w₂ e es hx _ ih =>
    obtain ⟨hwaiting, hrest⟩ := List.forall_mem_cons.1 hes
    have hrest' : id ∉ reaped k es := fun hmem => hr (by
      rw [reaped, List.filterMap_cons]
      split
      · exact hmem
      · exact List.mem_cons_of_mem _ hmem)
    refine ih hrest hrest' ?_
    obtain ⟨r, a⟩ := e
    have hsame (hkernels : w₁.kernels = w.kernels) : w₁.Tracks k id := by
      rw [Tracks, jobs_of_kernels hkernels]
      exact ht
    by_cases hstream : r.IsStream
    · have hstreams := Streams.perform w who hstream
      rw [hx] at hstreams
      exact hsame hstreams.kernels
    · cases r with
      | listJobs =>
        cases hx
        exact ht
      | findJob =>
        cases hx
        exact ht
      | waitJob k' id' =>
        obtain ⟨rfl, -⟩ := perform_waitJob hx
        exact ht
      | forgetJob k' id' =>
        by_cases hk : k' = k
        · subst hk
          have hne : id ≠ id' := fun heq => hr (by simp [reaped, Exchange.forgets?, heq])
          obtain ⟨j, hj, rfl⟩ := ht
          rw [Tracks, perform_forgetJob hx]
          exact ⟨j, List.mem_filter.2 ⟨hj, by simpa using hne⟩, rfl⟩
        · cases hx
          rw [Tracks, jobs_setJobs, if_neg fun h => hk h.1]
          exact ht
      | write | put => exact absurd trivial hstream
      | _ => exact hwaiting.elim
  | others hmove _ ih => exact ih hes hr (ho _ _ hmove ht)

end World.Serves

/-! ## Calls on a machine -/

/-- A call of `wait`: what it exchanges with the machine from one state of it to another, while others do what they may. -/
structure WaitCall where
  caller : TaskId
  evaluator : Evaluator
  ctx : Context
  argument : Option Value
  before : World
  exchanges : List Exchange
  outcome : Outcome
  after : World
  others : World → World → Prop
  moves : ∀ {v v'}, others v v' → v.Leads v'
  ends : (evaluator.invoke .wait argument.toList [] ctx).Ends exchanges outcome
  served : before.Serves others caller exchanges after

namespace WaitCall

variable (c : WaitCall) {k : KernelId} {id : JobId}

/-- The caller's descriptors 1 and 2 take everything that is written to them. -/
structure Open (out err : Outlet) : Prop where
  out : c.ctx.descriptors.expectOutput 1 = .ok out
  err : c.ctx.descriptors.expectOutput 2 = .ok err
  taken : ∀ e ∈ c.exchanges, e.Accepted

/-- The others forget no job of the kernel that is tracked. -/
def Undisturbed : Prop := ∀ v v', c.others v v' → ∀ id, v.Tracks c.ctx.kernel id → v'.Tracks c.ctx.kernel id

/-- A call goes from one machine to another by deeds. -/
theorem leads : c.before.Leads c.after := c.served.leads c.moves

/-- What a call exchanges is what its evaluation ends with. -/
theorem ends_waitFor : (waitFor c.argument c.evaluator.bound c.ctx).Ends c.exchanges c.outcome := by
  have h := c.ends
  cases harg : c.argument <;> rw [harg] at h <;> exact h

/-- A call up to where it reaps the jobs that it was told of. -/
structure Told (asked : List Exchange) (results : List (JobId × RunResult)) (midway : World) : Prop where
  asks : Asks c.ctx.kernel c.argument asked (.ok results)
  served : c.before.Serves c.others c.caller asked midway

variable {c} {asked : List Exchange} {results : List (JobId × RunResult)} {midway : World}

/-- A call fails before it is told of any job, or reaps the jobs that it was told of. -/
theorem parts : (∃ ex, Asks c.ctx.kernel c.argument c.exchanges (.error ex) ∧ c.outcome = .error ex) ∨
    ∃ asked results midway rest fs, c.Told asked results midway ∧ c.exchanges = asked ++ rest ∧
      Reaps c.evaluator.bound c.ctx results rest fs ∧ midway.Serves c.others c.caller rest c.after ∧
      c.outcome = waitOutcome fs := by
  refine (DualShell.ends_waitFor c.ends_waitFor).imp_right ?_
  rintro ⟨es₁, es₂, results, fs, hes, hasks, hreaps, ho⟩
  obtain ⟨midway, h₁, h₂⟩ := World.Serves.split (hes ▸ c.served)
  exact ⟨es₁, results, midway, es₂, fs, ⟨hasks, h₁⟩, hes, hreaps, h₂, ho⟩

namespace Told

/-- While the jobs are asked after, deeds are done. -/
theorem leads (h : c.Told asked results midway) : c.before.Leads midway := h.served.leads c.moves

/-- What the call was told was so. -/
theorem was (h : c.Told asked results midway) {p : JobId × RunResult} (hp : p ∈ results) :
    World.Tells c.ctx.kernel c.before midway p := by
  obtain ⟨first, last, hasked⟩ := h.asks.found hp
  obtain ⟨v', hbegun, hlast⟩ := World.Serves.split (hasked ▸ h.served)
  obtain ⟨v, hfirst, hinquiry⟩ := hbegun.split
  exact (hinquiry.tells c.moves).within (hfirst.leads c.moves) (hlast.leads c.moves)

/-- A job that was told of had been started. -/
theorem id_lt (h : c.Told asked results midway) (hw : c.before.Booked) {p : JobId × RunResult} (hp : p ∈ results) :
    p.1 < (midway.jobs c.ctx.kernel).next := by
  obtain ⟨v, v', hv, ⟨j, hj, hid⟩, hv', -, hmid⟩ := h.was hp
  exact Nat.lt_of_lt_of_le (hid ▸ ((hw.leads hv) c.ctx.kernel).id_lt hj) (World.next_le_of_leads (hv'.trans hmid))

/-- Of a call without argument: which jobs there were when it looked, and what it was told of each. -/
theorem listed (h : c.Told asked results midway) (harg : c.argument = none) : ∃ v told, c.before.Leads v ∧ v.Leads midway ∧
    told.map (·.1) = (v.jobs c.ctx.kernel).list.map (·.id) ∧ results = resultsOf told ∧
      v.Serves c.others c.caller (told.flatMap (inquiry c.ctx.kernel)) midway := by
  have hasks := harg ▸ h.asks
  generalize hr : (Except.ok results : Except Exception _) = r at hasks
  cases hasks with
  | @all infos told htold =>
    obtain ⟨v, v', h₁, hx, h₂⟩ := h.served.first
    obtain ⟨hinfos, rfl⟩ : (v.jobs c.ctx.kernel).list = infos ∧ v = v' := by
      simpa [World.perform] using hx
    exact ⟨v, told, h₁.leads c.moves, h₂.leads c.moves, hinfos ▸ htold, Except.ok.inj hr, h₂⟩

/-- No job is told of twice in one call. -/
theorem nodup (h : c.Told asked results midway) (hw : c.before.Booked) : (results.map (·.1)).Nodup := by
  cases harg : c.argument with
  | none =>
    obtain ⟨v, told, hv, -, htold, rfl, -⟩ := h.listed harg
    exact (htold ▸ ((hw.leads hv) c.ctx.kernel).nodup).sublist (resultsOf_sublist told)
  | some x =>
    have hasks := harg ▸ h.asks
    generalize hr : (Except.ok results : Except Exception _) = r at hasks
    cases hasks with
    | unreadable | unknown => nomatch hr
    | given => cases hr; exact List.nodup_singleton _

end Told

/-- Some of the jobs that a call was told of it is done with, and the rest it left alone. -/
structure Accounts (c : WaitCall) (done rest : List (JobId × RunResult)) : Prop where
  /-- They are the jobs that the call waited on, and so they had ended. -/
  waited : ∀ id r, (⟨.waitJob c.ctx.kernel id, r⟩ : Exchange) ∈ c.exchanges ↔ (id, r) ∈ done ++ rest
  told : ∀ p ∈ done ++ rest, World.Tells c.ctx.kernel c.before c.after p
  reaped : reaped c.ctx.kernel c.exchanges = done.map (·.1)
  gone : ∀ p ∈ done, (c.after.jobs c.ctx.kernel).Gone p.1
  kept : c.Undisturbed → ∀ p ∈ rest, c.after.Tracks c.ctx.kernel p.1

/-- How a call comes out that is done with some jobs and left the rest alone. -/
inductive ComesOut (c : WaitCall) (done rest : List (JobId × RunResult)) : Prop
  /-- There is no such job. -/
  | refused {cause : Cause} (hdone : done = []) (hrest : rest = []) (ho : c.outcome = .error (.ofCause cause))
  | finished (hrest : rest = []) (ho : c.outcome = waitOutcome (.ok (failuresOf done)))
  /-- The replay of the last one failed. -/
  | stopped {last : JobId × RunResult} {es : List Exchange} {ex : Exception} (hlast : done.getLast? = some last)
    (hreplay : (last.2.replay c.evaluator.bound c.ctx).Ends es (.error ex)) (ho : c.outcome = .error ex)

/-- A call accounts for each job that it was told of. -/
theorem accounts (hw : c.before.Booked) : ∃ done rest, c.Accounts done rest ∧ c.ComesOut done rest := by
  rcases c.parts with ⟨ex, hasks, ho⟩ | ⟨asked, results, midway, es₂, fs, htold, hes, hreaps, hserved, ho⟩
  · have hnone : ∃ cause, ex = .ofCause cause ∧ ∀ id r, (⟨.waitJob c.ctx.kernel id, r⟩ : Exchange) ∉ c.exchanges := by
      generalize harg : c.argument = argument at hasks
      generalize hres : c.exchanges = es at hasks
      cases hasks with
      | unreadable => exact ⟨_, rfl, fun id r h => nomatch h⟩
      | unknown => exact ⟨_, rfl, fun id r h => nomatch List.mem_singleton.1 h⟩
    obtain ⟨cause, rfl, hnone⟩ := hnone
    refine ⟨[], [], ⟨fun id r => iff_of_false (hnone id r) List.not_mem_nil, List.forall_mem_nil _, hasks.quiet.1,
      List.forall_mem_nil _, fun _ => List.forall_mem_nil _⟩, .refused rfl rfl ho⟩
  · obtain ⟨done, rest, rfl, hreaped, hreached⟩ := hreaps.reached
    have hall : reaped c.ctx.kernel c.exchanges = done.map (·.1) := by
      rw [hes, reaped_append, htold.asks.quiet.1, List.nil_append, hreaped]
    refine ⟨done, rest, ⟨fun id r => ?_, fun p hp => ?_, hall, fun p hp => ?_, fun hundisturbed p hp => ?_⟩, ?_⟩
    · rw [hes, List.mem_append, htold.asks.told]
      refine or_iff_left fun hmem => ?_
      rcases hreaps.exchanges _ hmem with hout | ⟨id', heq⟩
      · exact hout
      · cases heq
    · exact (htold.was hp).within .refl (hserved.leads c.moves)
    · have hlt := htold.id_lt hw (List.mem_append_left rest hp)
      exact hserved.gone c.moves hlt (hreaped ▸ List.mem_map_of_mem hp)
    · have hmem : (⟨.findJob c.ctx.kernel p.1, true⟩ : Exchange) ∈ c.exchanges := by
        obtain ⟨first, last, hasked⟩ := htold.asks.found (List.mem_append_right _ hp)
        simp [hes, hasked, inquiry]
      obtain ⟨first, last, v, v', hsplit, -, hx, hlast⟩ := c.served.answered hmem
      obtain ⟨rfl, hfound⟩ := World.perform_findJob hx
      have hwaiting : ∀ e ∈ last, e.IsWaiting := fun e he => by
        have hmem : e ∈ c.exchanges := hsplit ▸ List.mem_append_right _ (List.mem_cons_of_mem _ he)
        rw [hes] at hmem
        exact (List.mem_append.1 hmem).elim (htold.asks.isWaiting e) (hreaps.isWaiting e)
      have hnot : p.1 ∉ reaped c.ctx.kernel last := fun hmem => by
        have hdone : p.1 ∈ done.map (·.1) := by
          rw [← hall, hsplit, reaped_append]
          refine List.mem_append_right _ ?_
          simpa [reaped, Exchange.forgets?] using hmem
        have hnodup := htold.nodup hw
        rw [List.map_append, List.nodup_append] at hnodup
        exact hnodup.2.2 _ hdone _ (List.mem_map_of_mem hp) rfl
      exact hlast.tracks (fun v v' h => hundisturbed v v' h _) hwaiting hnot (hfound.1 rfl)
    · cases hreached with
      | finished hrest => exact .finished hrest ho
      | stopped hlast hstop => exact .stopped hlast hstop ho

/-! ## Failures -/

/-- The call raises a failure, alone or as one of several. -/
def Raises (c : WaitCall) (ex : Exception) : Prop :=
  c.outcome = .error ex ∨ ∃ exs, ex ∈ exs ∧ c.outcome = .error (.ofCauses exs)

/-- The replay of a job failed, which was the last one that the call forgot, and the call came out with that. -/
def StoppedAt (c : WaitCall) (id : JobId) : Prop := ∃ r es ex, (⟨.waitJob c.ctx.kernel id, r⟩ : Exchange) ∈ c.exchanges ∧
  (DualShell.reaped c.ctx.kernel c.exchanges).getLast? = some id ∧ (r.replay c.evaluator.bound c.ctx).Ends es (.error ex) ∧
  c.outcome = .error ex

/-- A failure among the results is raised. -/
theorem raises_of_mem {done : List (JobId × RunResult)} {p : JobId × RunResult} {ex : Exception} (hp : p ∈ done)
    (hex : p.2.exception = some ex) (ho : c.outcome = waitOutcome (.ok (failuresOf done))) : c.Raises ex := by
  have hmem : ex ∈ failuresOf done := List.mem_flatMap.2 ⟨p, hp, by simp [hex]⟩
  generalize failuresOf done = exs at hmem ho
  rcases exs with _ | ⟨ex', _ | ⟨ex₂, exs⟩⟩
  · cases hmem
  · exact .inl (List.mem_singleton.1 hmem ▸ ho)
  · exact .inr ⟨_, hmem, ho⟩

/-- The failure of a job that a call waited on is raised, or the job is still tracked, unless the call forgot it and was
stopped after that by a replay that failed. -/
theorem failure_raised_or_kept (hw : c.before.Booked) (hundisturbed : c.Undisturbed) {id : JobId} {r : RunResult}
    {ex : Exception} (hid : (⟨.waitJob c.ctx.kernel id, r⟩ : Exchange) ∈ c.exchanges) (hex : r.exception = some ex) :
    c.Raises ex ∨ c.after.Tracks c.ctx.kernel id ∨
      (c.after.jobs c.ctx.kernel).Gone id ∧ id ∈ DualShell.reaped c.ctx.kernel c.exchanges ∧ ∃ last, c.StoppedAt last := by
  obtain ⟨done, rest, haccounts, hcomesOut⟩ := c.accounts hw
  rcases List.mem_append.1 ((haccounts.waited id r).1 hid) with hdone | hrest
  · cases hcomesOut with
    | refused hnone => exact absurd hdone (hnone ▸ List.not_mem_nil)
    | finished _ ho => exact .inl (raises_of_mem hdone hex ho)
    | @stopped last es ex' hlast hreplay ho =>
      refine .inr (.inr ⟨haccounts.gone _ hdone, haccounts.reaped ▸ List.mem_map_of_mem hdone, last.1, last.2, es, ex',
        ?_, ?_, hreplay, ho⟩)
      · exact (haccounts.waited _ _).2 (List.mem_append_left _ (List.mem_of_getLast? hlast))
      · rw [haccounts.reaped, List.getLast?_map, hlast]
        rfl
  · exact .inr (.inl (haccounts.kept hundisturbed _ hrest))

/-! ## Output -/

/-- A call replays some jobs, one after another. -/
structure Replays (c : WaitCall) (out err : Outlet) (results : List (JobId × RunResult)) : Prop where
  told : ∀ p ∈ results, World.Tells c.ctx.kernel c.before c.after p
  brought : delivered c.exchanges = results.flatMap fun p => p.2.deliveries out err
  reaped : DualShell.reaped c.ctx.kernel c.exchanges = results.map (·.1)
  gone : ∀ p ∈ results, (c.after.jobs c.ctx.kernel).Gone p.1
  outcome : c.outcome = waitOutcome (.ok (failuresOf results))

/-- A call without argument replays the jobs that there are when it looks, by their numbers. -/
def ReplaysAll (c : WaitCall) (out err : Outlet) : Prop :=
  ∃ v results, c.before.Leads v ∧ v.Leads c.after ∧ c.Replays out err results ∧
  (results.map (·.1)).Sublist ((v.jobs c.ctx.kernel).list.map (·.id)) ∧
  (c.Undisturbed → results.map (·.1) = (v.jobs c.ctx.kernel).list.map (·.id)) ∧
  ∀ info ∈ (v.jobs c.ctx.kernel).list, (c.after.jobs c.ctx.kernel).Gone info.id

/-- A call says that there is no such job, and does nothing. -/
def Denies (c : WaitCall) (id : JobId) : Prop := c.outcome = .error (.ofCause (.index s!"no such job: {id}")) ∧
  delivered c.exchanges = [] ∧ DualShell.reaped c.ctx.kernel c.exchanges = []

variable {out err : Outlet}

/-- A call that may write everywhere replays each result that it was told, once and in order. -/
theorem Told.replays (h : c.Told asked results midway) (hw : c.before.Booked) (hopen : c.Open out err) {rest : List Exchange}
    {fs : Except Exception (List Exception)} (hes : c.exchanges = asked ++ rest)
    (hreaps : Reaps c.evaluator.bound c.ctx results rest fs) (hserved : midway.Serves c.others c.caller rest c.after)
    (ho : c.outcome = waitOutcome fs) : c.Replays out err results := by
  obtain ⟨rfl, hbrought, hreaped⟩ := hreaps.brings hopen.out hopen.err fun e he =>
    hopen.taken e (hes ▸ List.mem_append_right _ he)
  refine ⟨fun p hp => (h.was hp).within .refl (hserved.leads c.moves), ?_, ?_, fun p hp => ?_, ho⟩
  · rw [hes, delivered_append, h.asks.quiet.2, List.nil_append, hbrought]
  · rw [hes, reaped_append, h.asks.quiet.1, List.nil_append, hreaped]
  · exact hserved.gone c.moves (h.id_lt hw hp) (hreaped ▸ List.mem_map_of_mem hp)

/-- Where everything that is written is taken, a call without argument replays all jobs. -/
theorem replaysAll (hw : c.before.Booked) (hopen : c.Open out err) (harg : c.argument = none) : c.ReplaysAll out err := by
  rcases c.parts with ⟨ex, hasks, -⟩ | ⟨asked, results, midway, es₂, fs, htold, hes, hreaps, hserved, ho⟩
  · exact absurd (harg ▸ hasks) Asks.all_ok
  · have hreplays := htold.replays hw hopen hes hreaps hserved ho
    obtain ⟨v, told, hv, hmid, htoldIds, rfl, htells⟩ := htold.listed harg
    refine ⟨v, _, hv, hmid.trans (hserved.leads c.moves), hreplays, htoldIds ▸ resultsOf_sublist told,
      fun hundisturbed => ?_, fun info hinfo => ?_⟩
    · rw [← htoldIds]
      refine map_resultsOf fun a ha hnone => ?_
      obtain ⟨id, _⟩ := a
      cases hnone
      obtain ⟨first, u, -, hfirst, hmissed, -⟩ := htells.misses ha
      have hlisted : v.Tracks c.ctx.kernel id := by
        obtain ⟨info, hinfo, hid⟩ := List.mem_map.1 (htoldIds ▸ List.mem_map_of_mem ha)
        obtain ⟨j, hj, rfl⟩ := List.mem_map.1 hinfo
        exact ⟨j, hj, hid⟩
      exact hmissed (hfirst.tracks (fun v v' h => hundisturbed v v' h id) (inquiries_areWaiting _ _)
        ((quiet_inquiries _ _).1 ▸ List.not_mem_nil) hlisted)
    · obtain ⟨⟨id, answer⟩, ha, rfl⟩ := List.mem_map.1 (htoldIds ▸ List.mem_map_of_mem (f := JobInfo.id) hinfo)
      cases answer with
      | some r => exact hreplays.gone (info.id, r) (List.mem_filterMap.2 ⟨_, ha, rfl⟩)
      | none =>
        obtain ⟨j, hj, rfl⟩ := List.mem_map.1 hinfo
        obtain ⟨first, u, last, hfirst, hmissed, hlast⟩ := htells.misses ha
        have hlt := Nat.lt_of_lt_of_le (((hw.leads hv) c.ctx.kernel).id_lt hj)
          (World.next_le_of_leads (hfirst.leads c.moves))
        exact World.gone_of_leads ⟨hlt, fun j' hj' hid => hmissed ⟨j', hj', hid⟩⟩
          ((hlast.leads c.moves).trans (hserved.leads c.moves))

/-- Where everything that is written is taken, a call for one job replays it if it is tracked. -/
theorem replaysOne (hw : c.before.Booked) (hopen : c.Open out err) {x : Value} (harg : c.argument = some x)
    (hid : parseJobId x = .ok id) : (∃ r, c.Replays out err [(id, r)]) ∨ c.Denies id := by
  rcases c.parts with ⟨ex, hasks, ho⟩ | ⟨asked, results, midway, es₂, fs, htold, hes, hreaps, hserved, ho⟩
  · obtain rfl := Asks.eq_of_error (harg ▸ hasks) hid
    exact .inr ⟨ho, hasks.quiet.2, hasks.quiet.1⟩
  · obtain ⟨r, rfl⟩ := Asks.eq_of_ok (harg ▸ htold.asks) hid
    exact .inl ⟨r, htold.replays hw hopen hes hreaps hserved ho⟩

/-- A call for a job that is gone is told so. -/
theorem denies_of_gone {x : Value} (harg : c.argument = some x) (hid : parseJobId x = .ok id)
    (hgone : (c.before.jobs c.ctx.kernel).Gone id) : c.Denies id := by
  rcases c.parts with ⟨ex, hasks, ho⟩ | ⟨asked, results, midway, es₂, fs, htold, -, -, -, -⟩
  · obtain rfl := Asks.eq_of_error (harg ▸ hasks) hid
    exact ⟨ho, hasks.quiet.2, hasks.quiet.1⟩
  · obtain ⟨r, rfl⟩ := Asks.eq_of_ok (harg ▸ htold.asks) hid
    exact absurd hgone (htold.was (List.mem_singleton_self _)).not_gone

/-- No job is reaped twice in one call. -/
theorem reaped_nodup (hw : c.before.Booked) : (DualShell.reaped c.ctx.kernel c.exchanges).Nodup := by
  rcases c.parts with ⟨ex, hasks, -⟩ | ⟨asked, results, midway, es₂, fs, htold, hes, hreaps, -, -⟩
  · exact hasks.quiet.1 ▸ List.nodup_nil
  · obtain ⟨done, rest, rfl, hreaped, -⟩ := hreaps.reached
    rw [hes, reaped_append, htold.asks.quiet.1, List.nil_append, hreaped]
    exact (htold.nodup hw).sublist ((List.sublist_append_left done rest).map _)

/-- A job that a call reaps was there before and is gone after. -/
theorem gone_of_reaped (hw : c.before.Booked) (hid : id ∈ DualShell.reaped c.ctx.kernel c.exchanges) :
    ¬(c.before.jobs c.ctx.kernel).Gone id ∧ (c.after.jobs c.ctx.kernel).Gone id := by
  obtain ⟨done, rest, haccounts, -⟩ := c.accounts hw
  obtain ⟨p, hp, rfl⟩ := List.mem_map.1 (haccounts.reaped ▸ hid)
  exact ⟨(haccounts.told p (List.mem_append_left rest hp)).not_gone, haccounts.gone p hp⟩

end WaitCall

/-- Calls of `wait` about the jobs of a kernel, one after another, with whatever happens in between. -/
inductive WaitCalls (k : KernelId) : World → List WaitCall → World → Prop
  | nil {w w' : World} (h : w.Leads w') : WaitCalls k w [] w'
  | call {w w' : World} {c : WaitCall} {cs : List WaitCall} (between : w.Leads c.before) (kernel : c.ctx.kernel = k)
    (rest : WaitCalls k c.after cs w') : WaitCalls k w (c :: cs) w'

/-- The jobs that some calls forget, one after another. -/
def waitedFor (k : KernelId) (cs : List WaitCall) : List JobId := cs.flatMap fun c => reaped k c.exchanges

namespace WaitCalls

variable {k : KernelId} {w w' : World} {cs : List WaitCall} {id : JobId}

/-- Calls one after another go from one machine to another by deeds. -/
theorem leads (h : WaitCalls k w cs w') : w.Leads w' := by
  induction h with
  | nil h => exact h
  | @call _ _ c _ between _ _ ih => exact between.trans (c.leads.trans ih)

/-- A job that was gone before is not waited for. -/
theorem not_waitedFor (h : WaitCalls k w cs w') (hw : w.Booked) (hgone : (w.jobs k).Gone id) : id ∉ waitedFor k cs := by
  induction h with
  | nil => exact List.not_mem_nil
  | @call w w' c cs between kernel _ ih =>
    subst kernel
    have hbefore := World.gone_of_leads hgone between
    intro hmem
    rcases List.mem_append.1 hmem with hmem | hmem
    · exact (WaitCall.gone_of_reaped (hw.leads between) hmem).1 hbefore
    · exact ih ((hw.leads between).leads c.leads) (World.gone_of_leads hbefore c.leads) hmem

/-- A job that was waited for is gone after. -/
theorem gone (h : WaitCalls k w cs w') (hw : w.Booked) (hid : id ∈ waitedFor k cs) : (w'.jobs k).Gone id := by
  induction h with
  | nil => cases hid
  | @call w w' c cs between kernel rest ih =>
    subst kernel
    rcases List.mem_append.1 hid with hid | hid
    · exact World.gone_of_leads (WaitCall.gone_of_reaped (hw.leads between) hid).2 rest.leads
    · exact ih ((hw.leads between).leads c.leads) hid

/-- No job is waited for twice. -/
theorem nodup (h : WaitCalls k w cs w') (hw : w.Booked) : (waitedFor k cs).Nodup := by
  induction h with
  | nil => exact List.nodup_nil
  | @call w w' c cs between kernel rest ih =>
    subst kernel
    have hbefore := hw.leads between
    refine List.nodup_append.2 ⟨WaitCall.reaped_nodup hbefore, ih (hbefore.leads c.leads), fun a ha b hb hab => ?_⟩
    subst hab
    exact rest.not_waitedFor (hbefore.leads c.leads) (WaitCall.gone_of_reaped hbefore ha).2 hb

/-- What came before a call, and what came after it. -/
theorem split {before after : List WaitCall} {c : WaitCall} (h : WaitCalls k w (before ++ c :: after) w') :
    WaitCalls k w before c.before ∧ c.ctx.kernel = k ∧ WaitCalls k c.after after w' := by
  induction before generalizing w with
  | nil =>
    cases h with
    | call between kernel rest => exact ⟨.nil between, kernel, rest⟩
  | cons c' before ih =>
    cases h with
    | call between kernel rest =>
      obtain ⟨hbefore, hkernel, hafter⟩ := ih rest
      exact ⟨.call between kernel hbefore, hkernel, hafter⟩

end WaitCalls

/-! ## Calls that return -/

/-- The machine takes what is written to an outlet at once: it goes to a collector or to an open file. -/
def World.Takes (w : World) : Outlet → Prop
  | .channel _ => False
  | .file h => (w.handles[h]?).isSome
  | .collector _ => True

/-- An evaluation comes to a value at once on every machine that takes what is written. -/
def Eval.Returns (out err : Outlet) (who : TaskId) {α : Type} (x : Eval α) : Prop := ∀ w : World, w.Takes out → w.Takes err →
  ∃ es a w', x.Ends es (.ok a) ∧ w.Serves Eq who es w' ∧ (∀ e ∈ es, e.Accepted) ∧ w'.Takes out ∧ w'.Takes err

section Returns

variable {out err : Outlet} {who : TaskId} {ctx : Context}

/-- An end that takes everything takes all bytes at once, and goes on to. -/
theorem World.perform_write {w : World} {o : Outlet} (who : TaskId) (h : w.Takes o) (data : Bytes) :
    ∃ w', w.perform who (.write o data) = (some (.ok data.length), w') ∧ ∀ o', w.Takes o' → w'.Takes o' := by
  cases o with
  | channel c => exact h.elim
  | collector k => exact ⟨_, rfl, fun o' ho' => by cases o' <;> exact ho'⟩
  | file handle =>
    obtain ⟨open_, hopen⟩ := Option.isSome_iff_exists.1 h
    simp only [World.perform, World.write, hopen]
    refine ⟨_, rfl, fun o' ho' => ?_⟩
    cases o' with
    | file h' => simpa [World.Takes] using ho'
    | _ => exact ho'

/-- An end that takes everything takes a value, and goes on to. -/
theorem World.perform_put {w : World} {o : Outlet} (who : TaskId) (h : w.Takes o) (v : Value) :
    ∃ w', w.perform who (.put o v) = (some (.ok ()), w') ∧ ∀ o', w.Takes o' → w'.Takes o' := by
  cases o with
  | channel c => exact h.elim
  | collector k => exact ⟨_, rfl, fun o' ho' => by cases o' <;> exact ho'⟩
  | file handle => exact ⟨w, rfl, fun o' => id⟩

namespace Eval.Returns

variable {α β : Type}

theorem pure (a : α) : (Pure.pure a : Eval α).Returns out err who := fun w hout herr =>
  ⟨[], a, w, ends_pure.2 ⟨rfl, rfl⟩, .nil w, List.forall_mem_nil _, hout, herr⟩

/-- Evaluation one part after another returns if each part does. -/
theorem bind {x : Eval α} {f : α → Eval β} (hx : x.Returns out err who) (hf : ∀ a, (f a).Returns out err who) :
    (x >>= f).Returns out err who := by
  intro w hout herr
  obtain ⟨es, a, w₁, hends, hserves, htaken, hout₁, herr₁⟩ := hx w hout herr
  obtain ⟨es', b, w₂, hends', hserves', htaken', hout₂, herr₂⟩ := hf a w₁ hout₁ herr₁
  exact ⟨es ++ es', b, w₂, hends.bind hends', hserves.append hserves', List.forall_mem_append.2 ⟨htaken, htaken'⟩,
    hout₂, herr₂⟩

/-- A request that is answered at once, and takes away no outlet. -/
theorem ask {r : Request} (h : ∀ w : World, w.Takes out → w.Takes err → ∃ a w', w.perform who r = (some a, w') ∧
    (⟨r, a⟩ : Exchange).Accepted ∧ w'.Takes out ∧ w'.Takes err) : (Eval.ask r).Returns out err who := by
  intro w hout herr
  obtain ⟨a, w', hx, haccepted, hout', herr'⟩ := h w hout herr
  exact ⟨[⟨r, a⟩], a, w', ends_ask.2 ⟨a, rfl, rfl⟩, .answer hx (.nil w'), List.forall_mem_singleton.2 haccepted,
    hout', herr'⟩

end Eval.Returns

/-- Bytes that are taken at once are written in two rounds at most. -/
theorem Outlet.writeAll_returns {o : Outlet} (ho : o = out ∨ o = err) {bound : Nat} (hbound : 2 ≤ bound) (data : Bytes) :
    (o.writeAll bound data).Returns out err who := by
  obtain ⟨bound, rfl⟩ := Nat.exists_eq_add_of_le' hbound
  intro w hout herr
  have htakes : w.Takes o := by rcases ho with rfl | rfl <;> assumption
  unfold Outlet.writeAll
  split
  · exact Eval.Returns.pure () w hout herr
  · obtain ⟨w', hx, hkeeps⟩ := World.perform_write who htakes data
    refine ⟨[⟨.write o data, .ok data.length⟩], (), w',
      ends_ask_bind.2 ⟨_, [], rfl, ends_ofExcept_bind.2 (.inr ⟨_, rfl, ?_⟩)⟩,
      .answer hx (.nil w'), List.forall_mem_singleton.2 trivial, hkeeps _ hout, hkeeps _ herr⟩
    unfold Outlet.writeAll
    simp

section Replay

variable (hout : ctx.descriptors.expectOutput 1 = .ok out) (herr : ctx.descriptors.expectOutput 2 = .ok err)
    {bound : Nat} (hbound : 2 ≤ bound)

include hout

theorem Context.putAll_returns (vs : List Value) : (ctx.putAll vs).Returns out err who := by
  induction vs with
  | nil => exact .pure ()
  | cons v vs ih =>
    refine .bind (fun w hwout hwerr => ?_) fun _ => ih
    obtain ⟨w', hx, hkeeps⟩ := World.perform_put who hwout v
    unfold Context.put
    rw [hout]
    exact ⟨[⟨.put out v, .ok ()⟩], (), w', ends_ask_bind.2 ⟨_, [], rfl, ends_ofExcept.2 ⟨rfl, rfl⟩⟩, .answer hx (.nil w'),
      List.forall_mem_singleton.2 trivial, hkeeps _ hwout, hkeeps _ hwerr⟩

include herr hbound

/-- A result is replayed where everything is taken. -/
theorem RunResult.replay_returns (r : RunResult) : (r.replay bound ctx).Returns out err who := by
  have hpart : ∀ {fd : Nat} {o : Outlet} (text : String), ctx.descriptors.expectOutput fd = .ok o → o = out ∨ o = err →
      (if text.isEmpty then pure () else ctx.writeTo bound fd text : Eval Unit).Returns out err who := by
    intro fd o text hfd ho
    split
    · exact .pure ()
    · unfold Context.writeTo
      rw [hfd]
      exact Outlet.writeAll_returns ho hbound _
  rw [r.replay_eq]
  exact .bind (hpart r.out hout (.inl rfl)) fun _ => .bind (hpart r.err herr (.inr rfl)) fun _ =>
    Context.putAll_returns hout r.values

/-- Results are replayed one after another. -/
theorem reap_returns : (results : List (JobId × RunResult)) → (reap bound ctx results).Returns out err who
  | [] => .pure []
  | (id, r) :: rest => by
    have hforget : (Eval.ask (.forgetJob ctx.kernel id)).Returns out err who := .ask fun w hwout hwerr => by
      refine ⟨(), _, rfl, trivial, ?_, ?_⟩
      · cases out <;> exact hwout
      · cases err <;> exact hwerr
    exact .bind hforget fun _ => .bind (r.replay_returns hout herr hbound) fun _ => .bind (reap_returns rest) fun _ =>
      .pure _

end Replay

end Returns

/-- Jobs that have ended are told of at once. -/
theorem awaitJobs_ended {ctx : Context} {w : World} (who : TaskId) :
    (ids : List JobId) → (∀ id ∈ ids, w.Tracks ctx.kernel id ∧ ∃ r, (w.jobs ctx.kernel).result? id = some r) → ∃ es results,
      (awaitJobs ctx ids).Ends es (.ok results) ∧ w.Serves Eq who es w ∧ ∀ e ∈ es, e.Accepted
  | [], _ => ⟨[], [], ends_pure.2 ⟨rfl, rfl⟩, .nil w, List.forall_mem_nil _⟩
  | id :: ids, h => by
    obtain ⟨⟨htracks, r, hr⟩, hrest⟩ := List.forall_mem_cons.1 h
    obtain ⟨es, results, hends, hserves, htaken⟩ := awaitJobs_ended who ids hrest
    have hfind : w.perform who (.findJob ctx.kernel id) = (some true, w) :=
      congrArg (fun found => (some found, w)) (JobTable.find?_isSome.2 htracks)
    have hwait : w.perform who (.waitJob ctx.kernel id) = (some r, w) := congrArg (·, w) hr
    refine ⟨inquiry ctx.kernel (id, some r) ++ es, (id, r) :: results, ?_, .answer hfind (.answer hwait hserves),
      List.forall_mem_cons.2 ⟨trivial, List.forall_mem_cons.2 ⟨trivial, htaken⟩⟩⟩
    exact (ends_awaitJob.2 ⟨some r, rfl, rfl⟩).bind (hends.bind_last (ends_pure.2 ⟨rfl, rfl⟩))

/-- Where every job has ended, each that is listed has its result. -/
theorem JobTable.exists_result {t : JobTable} (h : ∀ j ∈ t.jobs, j.result?.isSome) :
    ∀ id ∈ t.list.map (·.id), (∃ j ∈ t.jobs, j.id = id) ∧ ∃ r, t.result? id = some r := by
  intro id hid
  obtain ⟨info, hinfo, rfl⟩ := List.mem_map.1 hid
  obtain ⟨j, hj, rfl⟩ := List.mem_map.1 hinfo
  obtain ⟨j', hfind⟩ := Option.isSome_iff_exists.1 (JobTable.find?_isSome.2 ⟨j, hj, rfl⟩)
  obtain ⟨r, hr⟩ := Option.isSome_iff_exists.1 (h j' (JobTable.mem_of_find? hfind).1)
  exact ⟨⟨j, hj, rfl⟩, r, (JobTable.result?_of_find? hfind).trans hr⟩

namespace WaitCall

/-- Where all jobs have ended and everything that is written is taken at once, a call without argument returns. -/
theorem exists_all {w : World} (who : TaskId) (e : Evaluator) (ctx : Context) {out err : Outlet} (hbound : 2 ≤ e.bound)
    (hout : ctx.descriptors.expectOutput 1 = .ok out) (herr : ctx.descriptors.expectOutput 2 = .ok err) (hwout : w.Takes out)
    (hwerr : w.Takes err) (hended : ∀ j ∈ (w.jobs ctx.kernel).jobs, j.result?.isSome) : ∃ c : WaitCall,
      c.before = w ∧ c.caller = who ∧ c.evaluator = e ∧ c.ctx = ctx ∧ c.argument = none ∧ c.Undisturbed ∧
      c.Open out err := by
  obtain ⟨es, results, hawait, hserves, htaken⟩ := awaitJobs_ended who _ (JobTable.exists_result hended)
  have hreaps : (reap e.bound ctx results).Returns out err who := reap_returns hout herr hbound results
  obtain ⟨es', exs, w', hreap, hserves', htaken', -, -⟩ := hreaps w hwout hwerr
  have hends : (waitFor none e.bound ctx).Ends (⟨.listJobs ctx.kernel, (w.jobs ctx.kernel).list⟩ :: (es ++ es'))
    (waitOutcome (.ok exs)) := by
    refine ends_ask_bind.2 ⟨_, _, rfl, hawait.bind (hreap.bind_last ?_)⟩
    rcases exs with _ | ⟨ex, _ | ⟨ex', exs⟩⟩ <;> exact .ret _
  refine ⟨⟨who, e, ctx, none, w, _, _, w', Eq, fun h => h ▸ .refl, hends, .answer rfl (hserves.append hserves')⟩,
    rfl, rfl, rfl, rfl, rfl, fun v v' heq id h => heq ▸ h, hout, herr, ?_⟩
  exact List.forall_mem_cons.2 ⟨trivial, List.forall_mem_append.2 ⟨htaken, htaken'⟩⟩

/-- A call for a job that is gone returns. -/
theorem exists_one {w : World} (who : TaskId) (e : Evaluator) (ctx : Context) {x : Value} {id : JobId}
    (hid : parseJobId x = .ok id) (hgone : (w.jobs ctx.kernel).Gone id) : ∃ c : WaitCall,
      c.before = w ∧ c.caller = who ∧ c.evaluator = e ∧ c.ctx = ctx ∧ c.argument = some x ∧ c.Denies id := by
  have hends : (waitFor (some x) e.bound ctx).Ends (inquiry ctx.kernel (id, none))
    (.error (.ofCause (.index s!"no such job: {id}"))) :=
    ends_ofExcept_bind.2 (.inr ⟨id, hid, (ends_awaitJob.2 ⟨none, rfl, rfl⟩).bind_last (ends_fail.2 ⟨rfl, rfl⟩)⟩)
  have hx : w.perform who (.findJob ctx.kernel id) = (some false, w) := by
    simp only [World.perform, hgone.find?, Option.isSome_none]
  exact ⟨⟨who, e, ctx, some x, w, _, _, w, Eq, fun h => h ▸ .refl, hends, .answer hx (.nil w)⟩, rfl, rfl, rfl, rfl, rfl,
    rfl, rfl, rfl⟩

end WaitCall

/-- What calls of `wait` about the jobs of a kernel do, one after another. -/
structure WaitCalls.ReplaysOnce (k : KernelId) (cs : List WaitCall) (w' : World) : Prop where
  /-- Without argument, all jobs are replayed. -/
  all : ∀ c ∈ cs, ∀ out err, c.Open out err → c.argument = none → c.ReplaysAll out err
  one : ∀ c ∈ cs, ∀ out err, c.Open out err → ∀ x id, c.argument = some x → parseJobId x = .ok id →
    (∃ r, c.Replays out err [(id, r)]) ∨ c.Denies id
  /-- No job is replayed twice. -/
  once : (waitedFor k cs).Nodup
  gone : ∀ id ∈ waitedFor k cs, (w'.jobs k).Gone id
  again : ∀ before c after x id, cs = before ++ c :: after → c.argument = some x → parseJobId x = .ok id →
    id ∈ waitedFor k before → c.Denies id
  /-- The next call without argument returns if all jobs have ended and what it writes is taken at once. -/
  returns : ∀ who e ctx out err, ctx.kernel = k → 2 ≤ e.bound → ctx.descriptors.expectOutput 1 = .ok out →
    ctx.descriptors.expectOutput 2 = .ok err → w'.Takes out → w'.Takes err → (∀ j ∈ (w'.jobs k).jobs, j.result?.isSome) →
    ∃ c : WaitCall, c.before = w' ∧ c.caller = who ∧ c.evaluator = e ∧ c.ctx = ctx ∧ c.argument = none ∧ c.Undisturbed ∧
    c.Open out err
  denies : ∀ who e ctx x id, ctx.kernel = k → parseJobId x = .ok id → id ∈ waitedFor k cs →
    ∃ c : WaitCall, c.before = w' ∧ c.caller = who ∧ c.evaluator = e ∧ c.ctx = ctx ∧ c.argument = some x ∧ c.Denies id

/-- Whoever calls `wait`, one call after another, and whatever the others do meanwhile: each job is replayed once. (Two
calls that overlap may find the same job before either has forgotten it, and then both replay it.) -/
theorem WaitCalls.replay_once {k : KernelId} {w w' : World} {cs : List WaitCall} (hw : w.Booked) (h : WaitCalls k w cs w') :
    ReplaysOnce k cs w' := by
  have hbefore : ∀ before c after, cs = before ++ c :: after → WaitCalls k w before c.before ∧ c.ctx.kernel = k ∧
    c.before.Booked := by
    rintro before c after rfl
    obtain ⟨h₁, hkernel, -⟩ := h.split
    exact ⟨h₁, hkernel, hw.leads h₁.leads⟩
  have hbooked : ∀ c ∈ cs, c.before.Booked := fun c hc => by
    obtain ⟨before, after, heq⟩ := List.append_of_mem hc
    exact (hbefore before c after heq).2.2
  refine {
    all := fun c hc out err hopen harg => WaitCall.replaysAll (hbooked c hc) hopen harg
    one := fun c hc out err hopen x id harg hid => WaitCall.replaysOne (hbooked c hc) hopen harg hid
    once := h.nodup hw
    gone := fun id hid => h.gone hw hid
    again := fun before c after x id heq harg hid hmem => ?_
    returns := ?_
    denies := ?_ }
  · obtain ⟨h₁, hkernel, -⟩ := hbefore before c after heq
    exact WaitCall.denies_of_gone harg hid (hkernel ▸ h₁.gone hw hmem)
  · rintro who e ctx out err rfl hbound hout herr hwout hwerr hended
    exact WaitCall.exists_all who e ctx hbound hout herr hwout hwerr hended
  · rintro who e ctx x id rfl hid hmem
    exact WaitCall.exists_one who e ctx hid (h.gone hw hmem)

namespace Sample

/-- A machine with one job, which ended so. -/
def ended (text : String) (result : RunResult) : World :=
  machine.setJobs 0 (JobTable.empty.after [.spawn text, .finish 1 result])

/-- The books of this machine are kept. -/
theorem ended_booked (text : String) (result : RunResult) : (ended text result).Booked := by
  have hbooked := History.booked (start fun _ _ => True)
  intro k
  unfold ended
  rw [World.jobs_setJobs]
  split
  · exact ⟨_, rfl⟩
  · exact hbooked k

/-- How `{ echo hi; fail bad }` ends as a job. -/
def failedResult : RunResult := ⟨"hi\n", "", [], some ⟨.fail (.string "bad"), [⟨"", ⟨0, 0⟩⟩]⟩⟩

/-- A machine with a job that wrote and failed. -/
def failedJob : World := ended "{ echo hi; fail bad } &" failedResult

/-- A call of `wait` with some descriptors, as a task. -/
def waiting (descriptors : Descriptors) : Task Outcome :=
  (limits.evaluator.invoke .wait [] [] ⟨0, 0, [], descriptors, []⟩).run

/-- A call of `wait` that ends in one turn. -/
def waitCall {w w' : World} {o : Outcome} {descriptors : Descriptors}
    (h : (waiting descriptors).run 9 20 false w = (.ended o, true, w')) : WaitCall where
  caller := 9
  evaluator := limits.evaluator
  ctx := ⟨0, 0, [], descriptors, []⟩
  argument := none
  before := w
  exchanges := (waiting descriptors).exchanges 9 20 w
  outcome := o
  after := w'
  others := Eq
  moves h := h ▸ .refl
  ends := (Task.served_of_turn Eq h).1
  served := (Task.served_of_turn Eq h).2

/-- Descriptors 1 and 2 that take everything. -/
def collecting : Descriptors := ⟨[(1, .writing (.collector 0)), (2, .writing (.collector 1))]⟩

/-- The machine after the job was waited for. -/
def replayed : World := ((waiting collecting).run 9 20 false failedJob).2.2

/-- With descriptors 1 and 2 open the call raises the failure of the job. -/
theorem waiting_open : (waiting collecting).run 9 20 false failedJob =
    (.ended (.error ⟨.fail (.string "bad"), [⟨"", ⟨0, 0⟩⟩]⟩), true, replayed) := by
  cbv

/-- The call reaps the job. -/
theorem waiting_open_reaped : reaped 0 ((waiting collecting).exchanges 9 20 failedJob) = [1] := by
  cbv

/-- A machine with a job that wrote a byte which is no text. -/
def binaryJob : World := ended "cat data &" (.ofOutput [255] [] [] (.ok ()))

theorem binaryJob_states : (binaryJob.jobs 0).jobs.map (·.state) = [.finished (.ofOutput [255] [] [] (.ok ()))] := by
  cbv

/-- The machine after the job was waited for. -/
def binaryReplayed : World := ((waiting collecting).run 9 20 false binaryJob).2.2

theorem waiting_binary : (waiting collecting).run 9 20 false binaryJob = (.ended (.ok ()), true, binaryReplayed) := by
  cbv

theorem waiting_binary_exchanges : (waiting collecting).exchanges 9 20 binaryJob =
    [⟨.listJobs 0, [⟨1, "cat data &", .done⟩]⟩,
    ⟨.findJob 0 1, true⟩, ⟨.waitJob 0 1, .ofOutput [255] [] [] (.ok ())⟩, ⟨.forgetJob 0 1, ()⟩,
    ⟨.write (.collector 0) [239, 191, 189], .ok 3⟩] := by
  cbv

end Sample

/-- One call of `wait` replays a job that wrote and failed. -/
theorem WaitCalls.replay_once_failed : ∃ w w' cs, w.Booked ∧ WaitCalls 0 w cs w' ∧ waitedFor 0 cs = [1] ∧
    ReplaysOnce 0 cs w' := by
  have hcalls : WaitCalls 0 Sample.failedJob [Sample.waitCall Sample.waiting_open] Sample.replayed :=
    .call .refl rfl (.nil .refl)
  exact ⟨_, _, _, Sample.ended_booked _ _, hcalls, (List.append_nil _).trans Sample.waiting_open_reaped,
    replay_once (Sample.ended_booked _ _) hcalls⟩

/-- Bytes that are no text are not what a call brings. -/
theorem WaitCall.bytes_altered :
    ¬∀ (c : WaitCall) (out err : Outlet) (captured : List (Bytes × Bytes × List Value × Outcome)),
    c.before.Booked → c.Undisturbed → c.Open out err → c.argument = none →
    (c.before.jobs c.ctx.kernel).jobs.map (·.state) =
    captured.map (fun p => .finished (.ofOutput p.1 p.2.1 p.2.2.1 p.2.2.2)) →
    delivered c.exchanges = captured.flatMap fun p => p.1.map (.byte out) ++ p.2.1.map (.byte err) ++
    p.2.2.1.map (.value out) := by
  intro hclaim
  have htaken : ∀ e ∈ (Sample.waitCall Sample.waiting_binary).exchanges, e.Accepted := by
    intro e he
    rw [show (Sample.waitCall Sample.waiting_binary).exchanges = _ from Sample.waiting_binary_exchanges] at he
    simp only [List.mem_cons, List.not_mem_nil, or_false] at he
    rcases he with rfl | rfl | rfl | rfl | rfl <;> trivial
  have hbytes := hclaim (Sample.waitCall Sample.waiting_binary) (.collector 0) (.collector 1) [([255], [], [], .ok ())]
    (Sample.ended_booked _ _) (fun v v' heq id h => heq ▸ h) ⟨rfl, rfl, htaken⟩ rfl Sample.binaryJob_states
  rw [show (Sample.waitCall Sample.waiting_binary).exchanges = _ from Sample.waiting_binary_exchanges] at hbytes
  nomatch congrArg List.length hbytes

namespace Sample

/-- The machine without the job. -/
def forgotten : World :=
  { failedJob with kernels := failedJob.kernels.modify 0 fun k => { k with jobs := (k.jobs.remove 1).2 } }

/-- With descriptor 1 closed the call fails because of that, and the job is forgotten. -/
theorem waiting_closed : (waiting ⟨[(2, .writing (.collector 1))]⟩).run 9 20 false failedJob =
    (.ended (.error ⟨.cause (.io "fd 1 is not open for writing"), []⟩), true, forgotten) := by
  cbv

/-- The call is told of the job. -/
theorem waiting_told : ((waiting ⟨[(2, .writing (.collector 1))]⟩).exchanges 9 20 failedJob)[2]? =
    some ⟨.waitJob 0 1, failedResult⟩ := by
  cbv

end Sample

namespace WaitCall

open Sample

/-- With descriptor 1 closed a call is told of a failed job, too. -/
theorem failure_raised_or_kept_closed : ∃ c : WaitCall, ∃ id r ex, c.before.Booked ∧ c.Undisturbed ∧
    (⟨.waitJob c.ctx.kernel id, r⟩ : Exchange) ∈ c.exchanges ∧ r.exception = some ex ∧
    (c.Raises ex ∨ c.after.Tracks c.ctx.kernel id ∨
      (c.after.jobs c.ctx.kernel).Gone id ∧ id ∈ DualShell.reaped c.ctx.kernel c.exchanges ∧ ∃ last, c.StoppedAt last) := by
  have hundisturbed : (waitCall waiting_closed).Undisturbed := fun v v' heq id h => heq ▸ h
  have hmem : (⟨.waitJob 0 1, failedResult⟩ : Exchange) ∈ (waitCall waiting_closed).exchanges :=
    List.mem_of_getElem? waiting_told
  exact ⟨waitCall waiting_closed, 1, failedResult, _, ended_booked _ _, hundisturbed, hmem, rfl,
    failure_raised_or_kept (ended_booked _ _) hundisturbed hmem rfl⟩

/-- With descriptor 1 closed, the failure of a job that wrote something is lost. -/
theorem failure_lost : ¬∀ c : WaitCall, c.before.Booked → c.Undisturbed → ∀ id r ex,
    (⟨.waitJob c.ctx.kernel id, r⟩ : Exchange) ∈ c.exchanges → r.exception = some ex → c.Raises ex ∨
    c.after.Tracks c.ctx.kernel id := by
  intro hclaim
  have hmem : (⟨.waitJob 0 1, failedResult⟩ : Exchange) ∈ (waitCall waiting_closed).exchanges :=
    List.mem_of_getElem? waiting_told
  have h := hclaim (waitCall waiting_closed) (ended_booked _ _) (fun v v' heq id h => heq ▸ h) 1 failedResult
    ⟨.fail (.string "bad"), [⟨"", ⟨0, 0⟩⟩]⟩ hmem rfl
  rcases h with (h | ⟨exs, -, h⟩) | ⟨j, hj, -⟩
  · cases h
  · cases h
  · have hnone : (forgotten.jobs 0).jobs.length = 0 := by cbv
    exact absurd (List.length_pos_of_mem hj) (hnone ▸ Nat.lt_irrefl 0)

end WaitCall

end DualShell
