import DualShell.Proofs.Job.Ledger
import DualShell.Proofs.Machine.Frames
import DualShell.Proofs.Machine.History

/-!
# Jobs of a machine

The jobs of a kernel are changed by actions only, whatever tasks do (`World.WorksOn.step`) and whatever is done from outside
(`History.booked`). So what a table tells after any actions is what every kernel tells at any time.
-/

namespace DualShell

/-- What a request does with the jobs of a kernel. -/
inductive Request.ActsOn (k : KernelId) : Request → JobAction → Prop
  | start (p : Code.Pipeline) (ctx : Context) (h : ctx.kernel = k) : ActsOn k (.startJob p ctx) (.spawn p.text)
  | finish (id : JobId) (r : RunResult) : ActsOn k (.finishJob k id r) (.finish id r)
  | cleanup : ActsOn k (.cleanupJobs k) .cleanup
  | forget (id : JobId) : ActsOn k (.forgetJob k id) (.remove id)

namespace World

variable {w w' w'' : World}

/-- The jobs are those of the kernels. -/
theorem jobs_of_kernels (h : w'.kernels = w.kernels) : w'.jobs = w.jobs := by
  funext k
  rw [World.jobs, World.kernel?, h, World.jobs, World.kernel?]

/-- A change of a kernel that leaves its jobs alone changes no jobs. -/
theorem jobs_modifyKernel (k : KernelId) {change : Kernel → Kernel} (hc : ∀ kernel, (change kernel).jobs = kernel.jobs) :
    (w.modifyKernel k change).jobs = w.jobs := by
  funext i
  simp only [World.jobs, World.kernel?, World.modifyKernel, Array.getElem?_modify]
  by_cases hki : k = i
  · rcases w.kernels[i]? with _ | kernel <;> simp [hki, hc]
  · simp [hki]

/-- The table of a kernel is the one that was set. -/
theorem jobs_setJobs (w : World) (k : KernelId) (t : JobTable) (i : KernelId) :
    (w.setJobs k t).jobs i = if k = i ∧ (w.kernel? k).isSome then t else w.jobs i := by
  simp only [World.jobs, World.kernel?, World.setJobs, World.modifyKernel, Array.getElem?_modify]
  by_cases hki : k = i
  · rcases hk : w.kernels[i]? with _ | kernel <;> simp [hki, hk]
  · simp [hki]

/-! ## Actions -/

/-- An answer leaves the jobs of a kernel alone, or does with them what the request says. -/
theorem jobs_perform (w : World) (who : TaskId) (r : Request) (k : KernelId) :
    (w.perform who r).2.jobs k = w.jobs k ∨ ∃ a, r.ActsOn k a ∧ (w.perform who r).2.jobs k = ((w.jobs k).act a).2 := by
  have hsame {w' : World} (h : w'.kernels = w.kernels) : w'.jobs k = w.jobs k := congrFun (jobs_of_kernels h) k
  have hset {w' : World} (i : KernelId) (a : JobAction) (h : w'.kernels = (w.setJobs i ((w.jobs i).act a).2).kernels)
      (ha : i = k → r.ActsOn k a) : w'.jobs k = w.jobs k ∨ ∃ a, r.ActsOn k a ∧ w'.jobs k = ((w.jobs k).act a).2 := by
    rw [jobs_of_kernels h, jobs_setJobs]
    split
    · rename_i hi
      obtain ⟨rfl, -⟩ := hi
      exact .inr ⟨a, ha rfl, rfl⟩
    · exact .inl rfl
  by_cases hstream : r.IsStream
  · exact .inl (hsame (Streams.perform w who hstream).kernels)
  cases r with
  | startJob p ctx => exact hset ctx.kernel (.spawn p.text) rfl (.start p ctx)
  | finishJob i id r => exact hset i (.finish id r) rfl fun hi => hi ▸ .finish id r
  | cleanupJobs i => exact hset i .cleanup rfl fun hi => hi ▸ .cleanup
  | forgetJob i id => exact hset i (.remove id) rfl fun hi => hi ▸ .forget id
  | setEnv i name text =>
    have hjobs : (w.setEnv i name text).jobs = w.jobs := jobs_modifyKernel i fun _ => rfl
    exact .inl (congrFun hjobs k)
  | edit c change =>
    unfold World.perform Store.update
    split
    exact .inl (hsame rfl)
  | claimModule =>
    simp only [World.perform]
    split <;> exact .inl (hsame rfl)
  | join id =>
    simp only [World.perform]
    split
    · exact .inl rfl
    · rename_i hended
      unfold World.takeEnded at hended
      split at hended <;> cases hended
      exact .inl (hsame rfl)
  | _ => first | exact absurd trivial hstream | exact .inl (hsame rfl)

/-- The jobs of each kernel went on by actions. -/
def WorksOn (w w' : World) : Prop := ∀ k, ∃ as, w'.jobs k = (w.jobs k).after as

namespace WorksOn

/-- Who leaves the jobs alone works on them by no action. -/
theorem of_jobs (h : w'.jobs = w.jobs) : w.WorksOn w' := fun k => ⟨[], congrFun h k⟩

theorem of_kernels (h : w'.kernels = w.kernels) : w.WorksOn w' := .of_jobs (jobs_of_kernels h)

theorem refl (w : World) : w.WorksOn w := .of_jobs rfl

/-- Actions one after another are actions. -/
theorem trans (h : w.WorksOn w') (h' : w'.WorksOn w'') : w.WorksOn w'' := fun k => by
  obtain ⟨as, has⟩ := h k
  obtain ⟨bs, hbs⟩ := h' k
  exact ⟨as ++ bs, by rw [JobTable.after_append, ← has, hbs]⟩

/-- To take up an ending is no action. -/
theorem takeEnded {id : TaskId} {o : Outcome} (h : w.takeEnded id = some (o, w')) : w.WorksOn w' := by
  unfold World.takeEnded at h
  split at h
  · cases h
    exact .of_kernels rfl
  · cases h

/-- What streams are used for is no action. -/
theorem of_streams (h : w.Streams w') : w.WorksOn w' := .of_kernels h.kernels

/-- Answers change jobs by actions only. -/
theorem perform (w : World) (who : TaskId) (r : Request) : w.WorksOn (w.perform who r).2 := fun k => by
  obtain hsame | ⟨a, -, hact⟩ := w.jobs_perform who r k
  · exact ⟨[], hsame⟩
  · exact ⟨[a], hact⟩

/-- A step works on the jobs by actions. -/
theorem step {p p' : Pool} {ds : List Deed} (hs : p.Step ds p') : p.world.WorksOn p'.world := by
  cases hs with
  | @answer _ who r _ _ w _ _ hx | @wait _ who r _ _ w _ hx =>
    have hw := perform w who r
    rwa [hx] at hw
  | finish | giveUp | takeUp => exact .of_kernels rfl

/-- So does a run. -/
theorem goes {p p' : Pool} {ds : List Deed} (h : p.Goes ds p') : p.world.WorksOn p'.world := by
  induction h with
  | refl p => exact .refl _
  | step hs _ ih => exact (step hs).trans ih

/-- Actions give back no numbers. -/
theorem next_le (h : w.WorksOn w') (k : KernelId) : (w.jobs k).next ≤ (w'.jobs k).next := by
  obtain ⟨as, has⟩ := h k
  rw [has]
  clear has
  generalize w.jobs k = t
  induction as generalizing t with
  | nil => exact Nat.le_refl _
  | cons a as ih =>
    refine Nat.le_trans ?_ (ih (t.act a).2)
    rw [JobTable.act_next]
    exact Nat.le_add_right _ _

end WorksOn

end World

/-! ## Books -/

/-- The table came about by actions. -/
def JobTable.Made (t : JobTable) : Prop := ∃ as, t = empty.after as

/-- The jobs of each kernel came about by actions. -/
def World.Booked (w : World) : Prop := ∀ k, (w.jobs k).Made

/-- Actions keep the books. -/
theorem World.Booked.worksOn {w w' : World} (h : w.Booked) (hw : w.WorksOn w') : w'.Booked := fun k => by
  obtain ⟨as, has⟩ := h k
  obtain ⟨bs, hbs⟩ := hw k
  exact ⟨as ++ bs, by rw [JobTable.after_append, ← has, hbs]⟩

/-- The jobs of each kernel came about by actions, at any time. -/
theorem History.booked {Supplied : List Deed → Value → Prop} {ds : List Deed} {p : Pool} (h : History Supplied ds p) :
    p.world.Booked := by
  induction h with
  | create files source => exact fun k => ⟨[], by simp [World.jobs, World.kernel?, World.create, JobTable.after]⟩
  | step _ hs ih => exact ih.worksOn (.step hs)
  | @addKernel _ _ w config env _ ih =>
    intro k
    by_cases hk : k = w.kernels.size
    · exact ⟨[], by simp [World.jobs, World.kernel?, World.addKernel, hk, JobTable.after]⟩
    · have hsame : (w.addKernel config env).2.jobs k = w.jobs k := by
        simp [World.jobs, World.kernel?, World.addKernel, Array.getElem?_push, hk]
      exact hsame ▸ ih k
  | compile _ _ hcompile ih =>
    obtain ⟨_, _, rfl⟩ := compile_block hcompile
    exact ih.worksOn (.of_jobs (World.jobs_modifyKernel _ fun _ => rfl))
  | launch l input _ _ _ _ hlaunch ih =>
    cases hlaunch
    exact ih.worksOn (.of_kernels rfl)
  | setVar name _ hk _ ih =>
    rw [World.setVar, hk]
    exact ih.worksOn (.of_jobs (World.jobs_modifyKernel _ fun _ => rfl))
  | setEnv k name text _ ih => exact ih.worksOn (.of_jobs (World.jobs_modifyKernel k fun _ => rfl))
  | takeEnded _ ht ih => exact ih.worksOn (.takeEnded ht)
  | takeCollected c _ ih => exact ih.worksOn (.of_streams (.takeCollected _ c))
  | handOut _ _ ih => exact ih
  | identify _ _ ih | clearModules _ ih => exact ih.worksOn (.of_kernels rfl)

end DualShell
