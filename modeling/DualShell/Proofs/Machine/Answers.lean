import DualShell.Kernel.Execute
import DualShell.Proofs.Job.Ledger
import DualShell.Proofs.Machine.Discipline

/-!
# The machine keeps values as they are

The machine stores values, passes them on and hands them out again; it makes none. So if all that it holds is sound
(`World.Sound`) and a request brings nothing else, then its answer is sound and so is all that the machine holds
afterwards (`World.Sound.perform`). The one place where the machine computes with values is the change inside a
variable.
-/

namespace DualShell

variable {q : Quality} {α : Type}

namespace ArrayAux

theorem forall_mem_setIfInBounds {P : α → Prop} {xs : Array α} (h : ∀ a ∈ xs, P a) {b : α} (hb : P b) (i : Nat) :
    ∀ a ∈ xs.setIfInBounds i b, P a := by
  intro a ha
  rcases Array.mem_or_eq_of_mem_setIfInBounds ha with ha | rfl
  · exact h a ha
  · exact hb

theorem forall_mem_push {P : α → Prop} {xs : Array α} (h : ∀ a ∈ xs, P a) {b : α} (hb : P b) : ∀ a ∈ xs.push b, P a := by
  intro a ha
  rcases Array.mem_push.1 ha with ha | rfl
  · exact h a ha
  · exact hb

theorem forall_mem_modify {P : α → Prop} {xs : Array α} (h : ∀ a ∈ xs, P a) {f : α → α} (hf : ∀ a, P a → P (f a)) (i : Nat) :
    ∀ a ∈ xs.modify i f, P a := by
  intro a ha
  obtain ⟨j, hj, rfl⟩ := Array.mem_iff_getElem.1 ha
  rw [Array.getElem_modify]
  split
  · exact hf _ (h _ (Array.getElem_mem _))
  · exact h _ (Array.getElem_mem _)

/-- What holds of all entries, and of what stands in for a missing one, holds of any that is looked up. -/
theorem getD_of_forall_mem {P : α → Prop} {xs : Array α} (h : ∀ a ∈ xs, P a) {d : α} (hd : P d) (i : Nat) :
    P (xs.getD i d) := by
  rw [Array.getD_eq_getD_getElem?]
  cases hi : xs[i]? with
  | none => exact hd
  | some a => exact h a (Array.mem_of_getElem? hi)

end ArrayAux

open ArrayAux

/-! ## Where the machine holds values -/

/-- Every cell holds a sound value. -/
def Store.Sound (q : Quality) (s : Store) : Prop := ∀ v ∈ s.cells, v.Sound q

/-- Every value on its way through a channel is sound. -/
def Channel.Sound (q : Quality) (c : Channel) : Prop := Value.AllSound q c.values.items.toList

/-- What a job has left is sound. -/
def Job.Sound (q : Quality) (j : Job) : Prop := ∀ r, j.state = .finished r → r.Sound q

/-- All that the machine holds is sound. -/
structure World.Sound (q : Quality) (w : World) : Prop where
  store : w.store.Sound q
  channels : ∀ c ∈ w.channels, c.Sound q
  collectors : ∀ c ∈ w.collectors, Value.AllSound q c.values
  jobs : ∀ k ∈ w.kernels, ∀ j ∈ k.jobs.started, j.Sound q
  ended : ∀ e ∈ w.ended, Outcome.Sound q e.2

/-- A machine that is sound for a quality is sound for a weaker one. -/
theorem World.Sound.mono {q q' : Quality} (hq : q.Le q') {w : World} (h : w.Sound q) : w.Sound q' where
  store v hv := (h.store v hv).mono hq
  channels c hc v hv := (h.channels c hc v hv).mono hq
  collectors c hc v hv := (h.collectors c hc v hv).mono hq
  jobs k hk j hj r hr := (h.jobs k hk j hj r hr).mono hq
  ended e he := (h.ended e he).mono hq

namespace Store.Sound

variable {s : Store}

/-- A cell holds a sound value. -/
theorem get (h : s.Sound q) (c : CellId) : (s.get c).Sound q :=
  getD_of_forall_mem h .empty c

/-- A cell is set to a sound value. -/
theorem set (h : s.Sound q) (c : CellId) {v : Value} (hv : v.Sound q) : (s.set c v).Sound q :=
  forall_mem_setIfInBounds h hv c

/-- A new cell holds a sound value. -/
theorem ensure (h : s.Sound q) (f : FrameId) (name : String) : (s.ensure f name).2.Sound q := by
  unfold Store.ensure
  split
  · exact h
  · exact forall_mem_push h .empty

/-- A variable is set to a sound value. -/
theorem setVar (h : s.Sound q) (f : FrameId) (name : String) {v : Value} (hv : v.Sound q) : (s.setVar f name v).Sound q :=
  (h.ensure f name).set _ hv

/-- A variable has a sound value. -/
theorem getVar? (h : s.Sound q) {f : FrameId} {name : String} {v : Value} (hv : s.getVar? f name = some v) : v.Sound q := by
  obtain ⟨c, -, rfl⟩ := Option.map_eq_some_iff.1 hv
  exact h.get c

/-- A sound change of a cell leaves the store sound, and its failure is plain. -/
theorem update (h : s.Sound q) {change : Edit} (hc : change.Sound q) (c : CellId) :
    (s.update c change.apply).2.Sound q ∧ q.Plain (s.update c change.apply).1 := by
  have hchange := hc.apply (h.get c)
  unfold Store.update
  split
  · rename_i v hv
    rw [hv] at hchange
    exact ⟨h.set c hchange, trivial⟩
  · rename_i e he
    rw [he] at hchange
    exact ⟨h, hchange⟩

end Store.Sound

/-! ## Streams -/

/-- A supply of bytes that does not fail by a lookup. -/
def SupplySound {σ : Type} (q : Quality) (fetch : Nat → σ → Fetch × σ) : Prop :=
  ∀ count s cause, (fetch count s).1 = .failed cause → q.cause cause

namespace SupplySound

variable {σ : Type} {fetch : Nat → σ → Fetch × σ}

/-- A line is read from a sound supply, or the failure is plain. -/
theorem line (h : SupplySound q fetch) (r : LineReader) (s : σ) : (LineReader.line fetch r s).1.Yields q fun _ => True := by
  unfold LineReader.line
  split
  · split
    · trivial
    · rename_i hf
      exact h _ _ _ (by rw [hf])
    · split
      · split <;> trivial
      · trivial
  · split <;> trivial

/-- All bytes are read from a sound supply, or the failure is plain. -/
theorem toEnd (h : SupplySound q fetch) (r : LineReader) (s : σ) :
    (LineReader.toEnd fetch r s).1.Yields q fun _ => True := by
  unfold LineReader.toEnd
  split
  · split
    · trivial
    · rename_i hf
      exact h _ _ _ (by rw [hf])
    · split <;> trivial
  · trivial

/-- Some bytes are read from a sound supply, or the failure is plain. -/
theorem upTo (h : SupplySound q fetch) (count : Nat) (r : LineReader) (s : σ) :
    (LineReader.upTo fetch count r s).1.Yields q fun _ => True := by
  unfold LineReader.upTo
  split
  · trivial
  split
  · trivial
  split
  · trivial
  · rename_i hf
    exact h _ _ _ (by rw [hf])
  · trivial

/-- A pipe never fails. -/
theorem pipe (who : Waker) : SupplySound q (BytePipe.fetch who) := by
  intro count p cause hf
  unfold BytePipe.fetch at hf
  split at hf <;> nomatch hf

/-- A file fails plainly if at all. -/
theorem file (files : FileTree) : SupplySound q (World.fetchFile files) := by
  intro count h cause hf
  unfold World.fetchFile at hf
  split at hf
  · nomatch hf
  · cases hf
    trivial

end SupplySound

namespace Channel.Sound

variable {c : Channel}

/-- A channel that is handed sound values is sound. -/
theorem closedWith {data : Bytes} {values : List Value} (h : Value.AllSound q values) :
    (Channel.closedWith data values).Sound q := by
  simpa [Channel.Sound, Channel.closedWith, ValueQueue.closedWith] using h

theorem create (bytes values : Nat) : (Channel.create bytes values).Sound q := by
  intro v hv
  simp [Channel.create, ValueQueue.create] at hv

theorem dropInlet : c.dropInlet.Sound q := by
  intro v hv
  simp [Channel.dropInlet, ValueQueue.dropReceiver] at hv

/-- A channel stays sound if a sound value is put into it. -/
theorem put (h : c.Sound q) {v : Value} (hv : v.Sound q) : (c.put v).2.Sound q := by
  unfold Channel.put ValueQueue.put
  dsimp only
  split
  · exact h
  · split
    · exact h
    · intro v' hv'
      simp only [Queue.toList_append, List.mem_append, List.mem_singleton] at hv'
      rcases hv' with hv' | rfl
      · exact h v' hv'
      · exact hv

/-- Receiving leaves the others, and what is received was there. -/
theorem recv (h : c.Sound q) : c.recv.2.Sound q ∧ ∀ v, c.recv.1 = .value v → v.Sound q := by
  unfold Channel.recv ValueQueue.recv
  dsimp only
  split
  · rename_i v rest items htake
    have hitems : items.toList = c.values.items.toList.drop 1 := by
      rw [← Queue.toList_take_snd, htake]
    have hfirst : v ∈ (c.values.items.take 1).1 := by
      rw [htake]
      exact List.mem_cons_self
    rw [Queue.take_fst] at hfirst
    refine ⟨fun v' hv' => h v' (List.mem_of_mem_drop (i := 1) ?_), fun v' hv' => ?_⟩
    · rw [← hitems]
      exact hv'
    · cases hv'
      exact h _ (List.mem_of_mem_take hfirst)
  · split
    · exact ⟨h, fun v hv => nomatch hv⟩
    · exact ⟨h, fun v hv => nomatch hv⟩

/-- Reading bytes leaves the values alone. -/
theorem reading {β : Type} {step : LineReader → BytePipe → Step β × LineReader × BytePipe} (h : c.Sound q) :
    (c.reading step).2.Sound q := h

/-- An item of both streams is a value that was put or a line. -/
theorem item (h : c.Sound q) (prefer : Side) (who : Waker) (m : Merging) :
    (c.item prefer who m).2.2.Sound q ∧ (c.item prefer who m).1.Yields q fun o => ∀ v, o = some v → v.Sound q := by
  have hvalue : ∀ (c : Channel) (m : Merging), c.Sound q → (c.valueItem m).2.2.Sound q ∧
      (c.valueItem m).1.Yields q fun o => ∀ v, o = some v → v.Sound q := by
    intro c m h
    have hr := h.recv
    unfold Channel.valueItem
    split
    · split
      · rename_i hv
        rw [hv] at hr
        refine ⟨hr.1, fun v hv => ?_⟩
        cases hv
        exact hr.2 _ rfl
      · rename_i hv
        rw [hv] at hr
        exact ⟨hr.1, trivial⟩
      · rename_i hv
        rw [hv] at hr
        exact ⟨hr.1, trivial⟩
    · exact ⟨h, trivial⟩
  have hline : ∀ (c : Channel) (m : Merging), c.Sound q → (c.lineItem who m).2.2.Sound q ∧
      (c.lineItem who m).1.Yields q fun o => ∀ v, o = some v → v.Sound q := by
    intro c m h
    have hr : (c.line who).2.Sound q := h.reading
    have hs : (c.line who).1.Yields q fun _ => True := (SupplySound.pipe who).line _ _
    unfold Channel.lineItem
    split
    · split
      all_goals
        rename_i hl
        rw [hl] at hr hs
      · refine ⟨hr, fun v hv => ?_⟩
        cases hv
        exact .string _
      · exact ⟨hr, trivial⟩
      · exact ⟨hr, trivial⟩
      · exact ⟨hr, hs⟩
      · exact ⟨hr, trivial⟩
    · exact ⟨h, trivial⟩
  unfold Channel.item
  split
  · exact ⟨h, fun v hv => nomatch hv⟩
  · split
    · have hv := hvalue c m h
      split
      · rename_i hi
        rw [hi] at hv
        exact hline _ _ hv.1
      · exact hv
    · have hl := hline c m h
      split
      · rename_i hi
        rw [hi] at hl
        exact hvalue _ _ hl.1
      · exact hl

end Channel.Sound

/-! ## The state of the machine -/

namespace World.Sound

variable {w : World}

/-- A machine stays sound with a sound store. -/
theorem withStore (h : w.Sound q) {store : Store} (hs : store.Sound q) : World.Sound q { w with store } :=
  ⟨hs, h.channels, h.collectors, h.jobs, h.ended⟩

theorem addChannel (h : w.Sound q) {c : Channel} (hc : c.Sound q) : (w.addChannel c).2.Sound q :=
  ⟨h.store, forall_mem_push h.channels hc, h.collectors, h.jobs, h.ended⟩

/-- A machine stays sound with a sound channel. -/
theorem setChannel (h : w.Sound q) {c : Channel} (hc : c.Sound q) (i : Nat) :
    World.Sound q { w with channels := w.channels.setIfInBounds i c } :=
  ⟨h.store, forall_mem_setIfInBounds h.channels hc i, h.collectors, h.jobs, h.ended⟩

theorem channel (h : w.Sound q) {i : Nat} {c : Channel} (hc : w.channels[i]? = some c) : c.Sound q :=
  h.channels c (Array.mem_of_getElem? hc)

theorem addCollector (h : w.Sound q) : w.addCollector.2.Sound q :=
  ⟨h.store, h.channels, forall_mem_push h.collectors (fun _ hv => nomatch hv), h.jobs, h.ended⟩

/-- A machine stays sound if what it collected does. -/
theorem modifyCollector (h : w.Sound q) (k : CollectorId) {change : Collector → Collector}
    (hc : ∀ c : Collector, Value.AllSound q c.values → Value.AllSound q (change c).values) :
    World.Sound q { w with collectors := w.collectors.modify k change } :=
  ⟨h.store, h.channels, forall_mem_modify h.collectors hc k, h.jobs, h.ended⟩

/-- A collector hands out what was put into it and is empty afterwards. -/
theorem takeCollected (h : w.Sound q) (k : CollectorId) :
    (w.takeCollected k).2.Sound q ∧ Value.AllSound q (w.takeCollected k).1.2 := by
  unfold World.takeCollected
  split
  · exact ⟨h, fun _ hv => nomatch hv⟩
  · rename_i c hc
    have hempty : Value.AllSound q (⟨[], []⟩ : Collector).values := fun _ hv => nomatch hv
    refine ⟨⟨h.store, h.channels, forall_mem_setIfInBounds h.collectors hempty k, h.jobs, h.ended⟩, ?_⟩
    exact fun v hv => h.collectors c (Array.mem_of_getElem? hc) v (List.mem_reverse.1 hv)

/-- A change of kernels that leaves only sound jobs. -/
theorem modifyKernel (h : w.Sound q) (k : KernelId) {change : Kernel → Kernel}
    (hc : ∀ kernel : Kernel, (∀ j ∈ kernel.jobs.started, j.Sound q) → ∀ j ∈ (change kernel).jobs.started, j.Sound q) :
    (w.modifyKernel k change).Sound q :=
  ⟨h.store, h.channels, h.collectors, forall_mem_modify h.jobs hc k, h.ended⟩

/-- Jobs, also those that are not tracked any more, came to sound results. -/
theorem jobsOf (h : w.Sound q) (k : KernelId) : ∀ j ∈ (w.jobs k).started, j.Sound q := by
  unfold World.jobs
  split
  · rename_i kernel hk
    exact h.jobs kernel (Array.mem_of_getElem? hk)
  · exact fun _ hj => nomatch hj

/-- A machine stays sound with a table of jobs that came to sound results. -/
theorem setJobs (h : w.Sound q) (k : KernelId) {jobs : JobTable} (hj : ∀ j ∈ jobs.started, j.Sound q) :
    (w.setJobs k jobs).Sound q :=
  h.modifyKernel k fun _ _ => hj

/-- The jobs of a kernel go on, and what they leave is sound. -/
theorem actJobs (h : w.Sound q) (k : KernelId) {a : JobAction} (ha : ∀ id r, a = .finish id r → r.Sound q) :
    (w.setJobs k ((w.jobs k).act a).2).Sound q :=
  h.setJobs k (JobTable.forall_started_act (h.jobsOf k) ha)

/-- A job that is started has come to nothing yet. -/
theorem startJob (h : w.Sound q) (p : Code.Pipeline) (ctx : Context) : (w.startJob p ctx).2.Sound q := by
  have hw := h.actJobs ctx.kernel (a := .spawn p.text) fun _ _ ha => nomatch ha
  exact ⟨hw.store, hw.channels, hw.collectors, hw.jobs, hw.ended⟩

/-- What a job came to is sound. -/
theorem waitJob (h : w.Sound q) (k : KernelId) (id : JobId) {r : RunResult} (hr : (w.jobs k).result? id = some r) :
    r.Sound q :=
  JobTable.of_result? (h.jobsOf k) (fun _ => ⟨(fun _ hv => nomatch hv), fun e he => by cases he; exact .ofCause trivial⟩) hr

/-- Reading leaves the values of a channel alone, and fails only in ways of its own. -/
theorem reading {β : Type} (h : w.Sound q) {P : β → Prop} {onChannel : Channel → Step β × Channel}
    {onFile : OpenFile → Step β × OpenFile}
    (hc : ∀ c : Channel, c.Sound q → (onChannel c).2.Sound q ∧ (onChannel c).1.Yields q P)
    (hf : ∀ f, (onFile f).1.Yields q P) (inlet : Inlet) :
    (w.reading inlet onChannel onFile).2.Sound q ∧ (w.reading inlet onChannel onFile).1.Yields q P := by
  unfold World.reading
  split
  · split
    · exact ⟨h, trivial⟩
    · rename_i c hi
      have := hc c (h.channel hi)
      exact ⟨h.setChannel this.1 _, this.2⟩
  · split
    · exact ⟨h, trivial⟩
    · rename_i f hi
      exact ⟨⟨h.store, h.channels, h.collectors, h.jobs, h.ended⟩, hf f⟩

/-- A line is read from the input of a sound machine. -/
theorem line (h : w.Sound q) (who : TaskId) (inlet : Inlet) :
    (w.line who inlet).2.Sound q ∧ (w.line who inlet).1.Yields q fun _ => True :=
  h.reading (fun _ hc => ⟨hc.reading, (SupplySound.pipe who).line _ _⟩) (fun _ => (SupplySound.file w.files).line _ _) inlet

theorem toEnd (h : w.Sound q) (who : TaskId) (inlet : Inlet) :
    (w.toEnd who inlet).2.Sound q ∧ (w.toEnd who inlet).1.Yields q fun _ => True :=
  h.reading (fun _ hc => ⟨hc.reading, (SupplySound.pipe who).toEnd _ _⟩)
    (fun _ => (SupplySound.file w.files).toEnd _ _) inlet

theorem upTo (h : w.Sound q) (who : TaskId) (inlet : Inlet) (count : Nat) :
    (w.upTo who inlet count).2.Sound q ∧ (w.upTo who inlet count).1.Yields q fun _ => True :=
  h.reading (fun _ hc => ⟨hc.reading, (SupplySound.pipe who).upTo count _ _⟩)
    (fun _ => (SupplySound.file w.files).upTo count _ _) inlet

/-- The next item of the input of a sound machine is sound. -/
theorem item (h : w.Sound q) (who : TaskId) (inlet : Inlet) (m : Merging) :
    (w.item who inlet m).2.2.Sound q ∧ (w.item who inlet m).1.Yields q fun o => ∀ v, o = some v → v.Sound q := by
  unfold World.item
  cases inlet with
  | channel i =>
    dsimp only
    split
    · exact ⟨h, trivial⟩
    · rename_i c hc
      have := (h.channel hc).item .values who m
      exact ⟨h.setChannel this.1 _, this.2⟩
  | file f =>
    obtain ⟨hw, hstep⟩ := h.line who (.file f)
    refine ⟨hw, ?_⟩
    dsimp only
    revert hstep
    cases (w.line who (.file f)).1 with
    | done o =>
      intro _ v hv
      obtain ⟨line, -, rfl⟩ := Option.map_eq_some_iff.1 hv
      exact .string _
    | failed c => exact id
    | _ => exact fun _ => trivial

/-- Bytes are written on a sound machine. -/
theorem write (h : w.Sound q) (who : TaskId) (o : Outlet) (data : Bytes) :
    (w.write who o data).2.Sound q ∧ ∀ x, (w.write who o data).1 = some x → q.Plain x := by
  unfold World.write
  split
  · split
    · exact ⟨h, fun x hx => by cases hx; trivial⟩
    · rename_i c hc
      have hsame := h.channel hc
      have hchannel : (c.write who data).2.Sound q := hsame
      have hw := fun i => h.setChannel hchannel i
      dsimp only
      split
      · exact ⟨hw _, fun x hx => by cases hx; trivial⟩
      · exact ⟨hw _, fun x hx => by cases hx; trivial⟩
      · exact ⟨hw _, fun x hx => nomatch hx⟩
  · split
    · exact ⟨h, fun x hx => by cases hx; trivial⟩
    · exact ⟨⟨h.store, h.channels, h.collectors, h.jobs, h.ended⟩, fun x hx => by cases hx; trivial⟩
  · exact ⟨h.modifyCollector _ fun _ hc => hc, fun x hx => by cases hx; trivial⟩

/-- A sound value is put on a sound machine. -/
theorem put (h : w.Sound q) (o : Outlet) {v : Value} (hv : v.Sound q) :
    (w.put o v).2.Sound q ∧ ∀ x, (w.put o v).1 = some x → q.Plain x := by
  unfold World.put
  split
  · split
    · exact ⟨h, fun x hx => by cases hx; trivial⟩
    · rename_i c hc
      have hw := fun i => h.setChannel ((h.channel hc).put hv) i
      dsimp only
      split
      · exact ⟨hw _, fun x hx => by cases hx; trivial⟩
      · exact ⟨hw _, fun x hx => by cases hx; trivial⟩
      · exact ⟨hw _, fun x hx => nomatch hx⟩
  · exact ⟨h, fun x hx => by cases hx; trivial⟩
  · exact ⟨h.modifyCollector _ fun c hc => List.forall_mem_cons.2 ⟨hv, hc⟩, fun x hx => by cases hx; trivial⟩

/-- To close an end brings no values. -/
theorem closeOutlet (h : w.Sound q) (o : Outlet) : (w.closeOutlet o).Sound q := by
  unfold World.closeOutlet
  split
  · refine ⟨h.store, forall_mem_modify h.channels ?_ _, h.collectors, h.jobs, h.ended⟩
    exact fun _ hc => hc
  · exact h

/-- To close an input brings no values. -/
theorem closeInlet (h : w.Sound q) (i : Inlet) : (w.closeInlet i).Sound q := by
  unfold World.closeInlet
  split
  · refine ⟨h.store, forall_mem_modify h.channels ?_ _, h.collectors, h.jobs, h.ended⟩
    exact fun _ _ => Channel.Sound.dropInlet
  · exact h

/-- Files hold no values. -/
theorem openFile (h : w.Sound q) (path : String) (mode : RedirMode) : (w.openFile path mode).2.Sound q := by
  have hany : ∀ (files : FileTree) (handles : Array OpenFile), World.Sound q { w with files, handles } :=
    fun _ _ => ⟨h.store, h.channels, h.collectors, h.jobs, h.ended⟩
  unfold World.openFile
  split <;> split
  all_goals first | exact h | exact hany _ _

/-- A new frame holds the values it was given. -/
theorem activate (h : w.Sound q) (home : Option FrameId) {vars : List (String × Value)} (hv : ∀ p ∈ vars, p.2.Sound q) :
    (w.activate home vars).2.Sound q := by
  refine h.withStore ?_
  suffices hfold : ∀ (vars : List (String × Value)) (s : Store), (∀ p ∈ vars, p.2.Sound q) → s.Sound q →
      (vars.foldl (fun (s : Store) v => s.setVar w.store.frames.size v.1 v.2) s).Sound q from hfold vars _ hv h.store
  intro vars
  induction vars with
  | nil => exact fun _ _ hs => hs
  | cons p rest ih =>
    exact fun s hp hs => ih _ (fun p hp' => hp p (List.mem_cons_of_mem _ hp')) (hs.setVar _ _ (hp p List.mem_cons_self))

/-- A task ends with a sound outcome. -/
theorem endTask (h : w.Sound q) (id : TaskId) {o : Outcome} (ho : Outcome.Sound q o) : (w.endTask id o).Sound q := by
  refine ⟨h.store, h.channels, h.collectors, h.jobs, fun e he => ?_⟩
  rcases List.mem_append.1 he with he | he
  · exact h.ended e he
  · cases List.mem_singleton.1 he
    exact ho

/-- The outcome that is taken up is sound. -/
theorem takeEnded (h : w.Sound q) {id : TaskId} {o : Outcome} {w' : World} (ht : w.takeEnded id = some (o, w')) :
    w'.Sound q ∧ Outcome.Sound q o := by
  unfold World.takeEnded at ht
  split at ht
  · rename_i e he
    cases ht
    exact ⟨⟨h.store, h.channels, h.collectors, h.jobs, fun e he => h.ended e (List.mem_filter.1 he).1⟩,
      h.ended _ (List.mem_of_find?_eq_some he)⟩
  · nomatch ht

end World.Sound

/-- A search for a program fails only in ways of its own. -/
theorem Quality.Plain.program (files : FileTree) (name path : String) : q.Plain (Program.find files name path) := by
  unfold Program.find
  dsimp only
  generalize (if name.toList.contains '/' then some name else Program.search? files name path) = found
  cases found with
  | none => trivial
  | some path =>
    dsimp only
    split <;> trivial

/-- An answer is sound, and so is what the machine holds after it. -/
def Answer.Sound (q : Quality) {r : Request} (a : Answer r) : Prop :=
  a.2.Sound q ∧ ∀ x, a.1 = some x → r.Answered q x

/-- The answer to a step of a read. -/
theorem World.Sound.answerStep {β : Type} {P : β → Prop} {step : Step β × World} (h : step.2.Sound q ∧ step.1.Yields q P) :
    (World.answerStep step).2.Sound q ∧ ∀ x, (World.answerStep step).1 = some x → x.Yields q P := by
  unfold World.answerStep
  split
  · exact ⟨h.1, fun x hx => nomatch hx⟩
  · exact ⟨h.1, fun x hx => by cases hx; exact h.2⟩

/-- The machine makes no values: sound requests get sound answers and leave it sound. -/
theorem World.Sound.perform {w : World} (h : w.Sound q) (who : TaskId) {r : Request} (hr : r.Sound q) :
    Answer.Sound q (w.perform who r) := by
  have same : ∀ {r : Request} {x : r.Response}, r.Answered q x → Answer.Sound q ((some x, w) : Answer r) :=
    fun hx => ⟨h, fun _ he => by cases he; exact hx⟩
  have then_ : ∀ {r : Request} {x : r.Response} {w' : World}, w'.Sound q → r.Answered q x →
      Answer.Sound q ((some x, w') : Answer r) :=
    fun hw hx => ⟨hw, fun _ he => by cases he; exact hx⟩
  cases r with
  | cell f name access => exact then_ (h.withStore (h.store.ensure f name)) trivial
  | peek f name => exact same fun v hv => h.store.getVar? hv
  | unbind f name => exact then_ (h.withStore h.store) trivial
  | taken f captures name level access => exact same trivial
  | fixed name => exact same fun v hv => .fixedValue? hv
  | member ns qualifier name => exact same trivial
  | load c => exact same (h.store.get c)
  | store c v => exact then_ (h.withStore (h.store.set c hr)) trivial
  | edit c change =>
    have := h.store.update hr c
    exact then_ (h.withStore this.1) this.2
  | activate home vars imports => exact then_ (h.activate home hr) trivial
  | identity => exact then_ ⟨h.store, h.channels, h.collectors, h.jobs, h.ended⟩ trivial
  | adopt v => exact then_ ⟨h.store, h.channels, h.collectors, h.jobs, h.ended⟩ (Value.Sound.adopt hr w.fresh)
  | freeze name f => exact then_ ⟨h.store, h.channels, h.collectors, h.jobs, h.ended⟩ trivial
  | getEnv k name => exact same trivial
  | setEnv k name text => exact then_ (h.modifyKernel k fun _ hj => hj) trivial
  | environment k => exact same trivial
  | openChannel k =>
    refine then_ (h.addChannel ?_) trivial
    split <;> exact .create _ _
  | openInput data values => exact then_ (h.addChannel (.closedWith hr)) trivial
  | openCollector => exact then_ h.addCollector trivial
  | takeCollected k => exact then_ (h.takeCollected k).1 (h.takeCollected k).2
  | closeOutlet o => exact then_ (h.closeOutlet o) trivial
  | closeInlet i => exact then_ (h.closeInlet i) trivial
  | write o data => exact h.write who o data
  | put o v => exact h.put o hr
  | line i => exact World.Sound.answerStep (h.line who i)
  | toEnd i => exact World.Sound.answerStep (h.toEnd who i)
  | upTo i count => exact World.Sound.answerStep (h.upTo who i count)
  | item i m =>
    have hi := h.item who i m
    simp only [World.perform]
    split
    · rename_i he
      rw [he] at hi
      exact ⟨hi.1, fun x hx => nomatch hx⟩
    · rename_i he
      rw [he] at hi
      exact then_ hi.1 hi.2
  | openFile path mode => exact then_ (h.openFile path mode) trivial
  | readFile path => exact same trivial
  | workingDirectory => exact same trivial
  | expand pattern => exact same trivial
  | program k command => exact same (.program ..)
  | resolveModule k spec => exact same trivial
  | findModule key => exact then_ ⟨h.store, h.channels, h.collectors, h.jobs, h.ended⟩ trivial
  | claimModule key place =>
    simp only [World.perform]
    split
    · exact ⟨h, fun x hx => nomatch hx⟩
    · exact then_ ⟨h.store, h.channels, h.collectors, h.jobs, h.ended⟩ trivial
    · exact then_ ⟨h.store, h.channels, h.collectors, h.jobs, h.ended⟩ trivial
  | fetchModule key => exact same trivial
  | settleModule key place ns => exact then_ ⟨h.store, h.channels, h.collectors, h.jobs, h.ended⟩ trivial
  | startJob p ctx => exact then_ (h.startJob p ctx) trivial
  | finishJob k id r => exact then_ (h.actJobs k (a := .finish id r) fun _ _ ha => by cases ha; exact hr) trivial
  | listJobs k => exact same trivial
  | cleanupJobs k => exact then_ (h.actJobs k (a := .cleanup) fun _ _ ha => nomatch ha) trivial
  | findJob k id => exact same trivial
  | waitJob k id => exact ⟨h, fun r hr => h.waitJob k id hr⟩
  | forgetJob k id => exact then_ (h.actJobs k (a := .remove id) fun _ _ ha => nomatch ha) trivial
  | spawn work => exact then_ ⟨h.store, h.channels, h.collectors, h.jobs, h.ended⟩ trivial
  | join id =>
    simp only [World.perform]
    split
    · exact ⟨h, fun x hx => nomatch hx⟩
    · rename_i o w' ht
      exact then_ (h.takeEnded ht).1 (h.takeEnded ht).2

/-! ## Kernels and their programs -/

namespace World.Sound

variable {w : World}

/-- An empty machine holds no values. -/
theorem create (files : FileTree) (source : ModuleSource) : (World.create files source).Sound q := by
  refine ⟨?_, ?_, ?_, ?_, fun _ he => nomatch he⟩ <;> simp [World.create, Store.empty, Store.Sound]

/-- A new kernel brings no values and no jobs. -/
theorem addKernel (h : w.Sound q) (config : Config) (env : Environment) : (w.addKernel config env).2.Sound q := by
  refine ⟨h.store, h.channels, h.collectors, fun k hk j hj => ?_, h.ended⟩
  rcases Array.mem_push.1 hk with hk | rfl
  · exact h.jobs k hk j hj
  · nomatch hj

/-- A program is started with its input. -/
theorem launch (h : w.Sound q) {e : Evaluator} {k : KernelId} {globals : FrameId} {block : Code.Block} {input : Bytes}
    {values : List Value}
    (hvalues : Value.AllSound q values) : (w.launch e k globals block input values).2.2.2.Sound q :=
  ((h.addChannel (Channel.Sound.closedWith hvalues)).addCollector).addCollector

end World.Sound

end DualShell
