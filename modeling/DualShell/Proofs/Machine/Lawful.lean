import DualShell.Proofs.Machine.Answers
import DualShell.Proofs.Value.Law

/-!
# The machine keeps laws

What the machine holds obeys a law if all that was brought to it does (`World.Lawful.perform`): it stores values, passes
them on and hands them out, and where it computes with one, in a change inside a variable, the law is kept.
-/

namespace DualShell

open ArrayAux

variable {L : Law}

/-- A change that puts only lawful values in. -/
def Edit.Lawful (L : Law) : Edit → Prop
  | .replace keys value => L.values keys ∧ L.value value
  | .remove keys => L.values keys

/-- A lawful change makes a lawful value of a lawful value. -/
theorem Edit.Lawful.apply {change : Edit} (h : change.Lawful L) {v : Value} (hv : L.value v) :
    GivesOnly L.value (change.apply v) := by
  cases change with
  | replace keys value => exact L.assocPath h.2 keys hv h.1
  | remove keys => exact L.dissocPath keys hv h

namespace Request

/-- The values that a request brings to the machine are lawful. -/
def Lawful (L : Law) : Request → Prop
  | .store _ v => L.value v
  | .edit _ change => change.Lawful L
  | .activate _ vars _ => ∀ p ∈ vars, L.value p.2
  | .adopt v => L.value v
  | .openInput _ values => L.values values
  | .put _ v => L.value v
  | .finishJob _ _ r => L.result r
  | _ => True

/-- The values and failures that an answer brings are lawful. -/
def Brings (L : Law) : (r : Request) → r.Response → Prop
  | .peek .., x => ∀ v : Value, x = some v → L.value v
  | .fixed _, x => ∀ v : Value, x = some v → L.value v
  | .load _, x => L.value x
  | .adopt _, x => L.value x
  | .takeCollected _, x => L.values x.2
  | .item .., x => ∀ v : Value, x.1 = .done (some v) → L.value v
  | .waitJob .., r => L.result r
  | .join _, x => L.outcome x
  | _, _ => True

end Request

/-! ## Where the machine holds values -/

/-- Every value on its way through a channel is lawful. -/
def Channel.Lawful (L : Law) (c : Channel) : Prop := L.values c.values.items.toList

/-- What a job has left is lawful. -/
def Job.Lawful (L : Law) (j : Job) : Prop := ∀ r, j.state = .finished r → L.result r

/-- All that the machine holds is lawful. -/
structure World.Lawful (L : Law) (w : World) : Prop where
  cells : ∀ v ∈ w.store.cells, L.value v
  channels : ∀ c ∈ w.channels, c.Lawful L
  collectors : ∀ c ∈ w.collectors, L.values c.values
  jobs : ∀ k ∈ w.kernels, ∀ j ∈ k.jobs.started, j.Lawful L
  ended : ∀ e ∈ w.ended, L.outcome e.2

namespace Store

variable {s : Store} (h : ∀ v ∈ s.cells, L.value v)
include h

/-- A cell holds a lawful value. -/
theorem lawful_get (c : CellId) : L.value (s.get c) := getD_of_forall_mem h L.empty c

/-- A cell is set to a lawful value. -/
theorem lawful_set (c : CellId) {v : Value} (hv : L.value v) : ∀ u ∈ (s.set c v).cells, L.value u :=
  forall_mem_setIfInBounds h hv c

/-- A new cell holds a lawful value. -/
theorem lawful_ensure (f : FrameId) (name : String) : ∀ u ∈ (s.ensure f name).2.cells, L.value u := by
  unfold ensure
  split
  · exact h
  · exact forall_mem_push h L.empty

/-- A variable is set to a lawful value. -/
theorem lawful_setVar (f : FrameId) (name : String) {v : Value} (hv : L.value v) :
    ∀ u ∈ (s.setVar f name v).cells, L.value u :=
  lawful_set (lawful_ensure h f name) _ hv

/-- A variable has a lawful value. -/
theorem lawful_getVar? {f : FrameId} {name : String} {v : Value} (hv : s.getVar? f name = some v) : L.value v := by
  obtain ⟨c, -, rfl⟩ := Option.map_eq_some_iff.1 hv
  exact lawful_get h c

/-- A lawful change leaves lawful values. -/
theorem lawful_update {change : Edit} (hc : change.Lawful L) (c : CellId) :
    ∀ u ∈ (s.update c change.apply).2.cells, L.value u := by
  unfold update
  split
  · rename_i v hv
    exact lawful_set h c (hc.apply (lawful_get h c) v hv)
  · exact h

end Store

namespace Channel.Lawful

variable {c : Channel}

theorem create (bytes values : Nat) : (Channel.create bytes values).Lawful L := fun v hv => by
  simp [Channel.create, ValueQueue.create] at hv

/-- A channel that is handed lawful values is lawful. -/
theorem closedWith {data : Bytes} {values : List Value} (h : L.values values) :
    (Channel.closedWith data values).Lawful L := by
  simpa [Channel.Lawful, Channel.closedWith, ValueQueue.closedWith] using h

theorem dropInlet : c.dropInlet.Lawful L := fun v hv => by simp [Channel.dropInlet, ValueQueue.dropReceiver] at hv

/-- A channel stays lawful if a lawful value is put into it. -/
theorem put (h : c.Lawful L) {v : Value} (hv : L.value v) : (c.put v).2.Lawful L := by
  unfold Channel.put ValueQueue.put
  dsimp only
  split
  · exact h
  · split
    · exact h
    · show L.values (c.values.items.append [v]).toList
      rw [Queue.toList_append]
      exact List.forall_mem_append.2 ⟨h, List.forall_mem_singleton.2 hv⟩

/-- Receiving leaves the others, and what is received was there. -/
theorem recv (h : c.Lawful L) : c.recv.2.Lawful L ∧ ∀ v, c.recv.1 = .value v → L.value v := by
  unfold Channel.recv ValueQueue.recv
  dsimp only
  split
  · rename_i v rest items htake
    have hitems : items.toList = c.values.items.toList.drop 1 := by rw [← Queue.toList_take_snd, htake]
    have hfirst : v ∈ (c.values.items.take 1).1 := htake ▸ List.mem_cons_self
    rw [Queue.take_fst] at hfirst
    refine ⟨fun u hu => h u (List.mem_of_mem_drop (hitems ▸ hu)), fun u hu => ?_⟩
    cases hu
    exact h v (List.mem_of_mem_take hfirst)
  · split <;> exact ⟨h, fun _ hv => nomatch hv⟩

/-- An item of both streams is a value that was put or a line. -/
theorem item (h : c.Lawful L) (prefer : Side) (who : Waker) (m : Merging) :
    (c.item prefer who m).2.2.Lawful L ∧ ∀ v, (c.item prefer who m).1 = .done (some v) → L.value v := by
  have hvalue : ∀ (c : Channel) (m : Merging), c.Lawful L →
      (c.valueItem m).2.2.Lawful L ∧ ∀ v, (c.valueItem m).1 = .done (some v) → L.value v := by
    intro c m h
    have hr := h.recv
    unfold Channel.valueItem
    split
    · split
      all_goals
        rename_i hv
        rw [hv] at hr
      · exact ⟨hr.1, fun v heq => by cases heq; exact hr.2 _ rfl⟩
      · exact ⟨hr.1, fun _ heq => nomatch heq⟩
      · exact ⟨hr.1, fun _ heq => nomatch heq⟩
    · exact ⟨h, fun _ heq => nomatch heq⟩
  have hline : ∀ (c : Channel) (m : Merging), c.Lawful L →
      (c.lineItem who m).2.2.Lawful L ∧ ∀ v, (c.lineItem who m).1 = .done (some v) → L.value v := by
    intro c m h
    have hr : (c.line who).2.Lawful L := h
    unfold Channel.lineItem
    split
    · split
      all_goals
        rename_i hl
        rw [hl] at hr
      · exact ⟨hr, fun v heq => by cases heq; exact L.string _⟩
      all_goals exact ⟨hr, fun _ heq => nomatch heq⟩
    · exact ⟨h, fun _ heq => nomatch heq⟩
  unfold Channel.item
  split
  · exact ⟨h, fun _ heq => nomatch heq⟩
  · split
    · have hv := hvalue c m h
      split
      · rename_i hi
        rw [hi] at hv
        exact hline _ _ hv.1
      · exact hv
    · have hl := hline c m h
      split
      · rename_i hi
        rw [hi] at hl
        exact hvalue _ _ hl.1
      · exact hl

end Channel.Lawful

/-! ## The state of the machine -/

namespace World.Lawful

variable {w : World}

/-- A machine stays lawful with lawful cells. -/
theorem withCells (h : w.Lawful L) {store : Store} (hs : ∀ v ∈ store.cells, L.value v) : World.Lawful L { w with store } :=
  ⟨hs, h.channels, h.collectors, h.jobs, h.ended⟩

theorem addChannel (h : w.Lawful L) {c : Channel} (hc : c.Lawful L) : (w.addChannel c).2.Lawful L :=
  ⟨h.cells, forall_mem_push h.channels hc, h.collectors, h.jobs, h.ended⟩

theorem setChannel (h : w.Lawful L) {c : Channel} (hc : c.Lawful L) (i : Nat) :
    World.Lawful L { w with channels := w.channels.setIfInBounds i c } :=
  ⟨h.cells, forall_mem_setIfInBounds h.channels hc i, h.collectors, h.jobs, h.ended⟩

theorem channel (h : w.Lawful L) {i : Nat} {c : Channel} (hc : w.channels[i]? = some c) : c.Lawful L :=
  h.channels c (Array.mem_of_getElem? hc)

theorem addCollector (h : w.Lawful L) : w.addCollector.2.Lawful L :=
  ⟨h.cells, h.channels, forall_mem_push h.collectors (List.forall_mem_nil _), h.jobs, h.ended⟩

/-- A machine stays lawful if what it collected does. -/
theorem modifyCollector (h : w.Lawful L) (k : CollectorId) {change : Collector → Collector}
    (hc : ∀ c : Collector, L.values c.values → L.values (change c).values) :
    World.Lawful L { w with collectors := w.collectors.modify k change } :=
  ⟨h.cells, h.channels, forall_mem_modify h.collectors hc k, h.jobs, h.ended⟩

/-- A collector hands out what was put into it and is empty afterwards. -/
theorem takeCollected (h : w.Lawful L) (k : CollectorId) :
    (w.takeCollected k).2.Lawful L ∧ L.values (w.takeCollected k).1.2 := by
  unfold World.takeCollected
  split
  · exact ⟨h, List.forall_mem_nil _⟩
  · rename_i c hc
    refine ⟨⟨h.cells, h.channels, forall_mem_setIfInBounds h.collectors (List.forall_mem_nil _) k, h.jobs, h.ended⟩,
      fun v hv => ?_⟩
    exact h.collectors c (Array.mem_of_getElem? hc) v (List.mem_reverse.1 hv)

/-- A change of kernels that leaves only lawful jobs. -/
theorem modifyKernel (h : w.Lawful L) (k : KernelId) {change : Kernel → Kernel}
    (hc : ∀ kernel : Kernel, (∀ j ∈ kernel.jobs.started, j.Lawful L) → ∀ j ∈ (change kernel).jobs.started, j.Lawful L) :
    (w.modifyKernel k change).Lawful L :=
  ⟨h.cells, h.channels, h.collectors, forall_mem_modify h.jobs hc k, h.ended⟩

/-- Jobs, also those that are not tracked any more, came to lawful results. -/
theorem jobsOf (h : w.Lawful L) (k : KernelId) : ∀ j ∈ (w.jobs k).started, j.Lawful L := by
  unfold World.jobs
  split
  · rename_i kernel hk
    exact h.jobs kernel (Array.mem_of_getElem? hk)
  · exact List.forall_mem_nil _

/-- A machine stays lawful with a table of jobs that came to lawful results. -/
theorem setJobs (h : w.Lawful L) (k : KernelId) {jobs : JobTable} (hj : ∀ j ∈ jobs.started, j.Lawful L) :
    (w.setJobs k jobs).Lawful L :=
  h.modifyKernel k fun _ _ => hj

/-- The jobs of a kernel go on, and what they leave obeys the law. -/
theorem actJobs (h : w.Lawful L) (k : KernelId) {a : JobAction} (ha : ∀ id r, a = .finish id r → L.result r) :
    (w.setJobs k ((w.jobs k).act a).2).Lawful L :=
  h.setJobs k (JobTable.forall_started_act (h.jobsOf k) ha)

theorem startJob (h : w.Lawful L) (p : Code.Pipeline) (ctx : Context) : (w.startJob p ctx).2.Lawful L := by
  have hw := h.actJobs ctx.kernel (a := .spawn p.text) fun _ _ ha => by cases ha
  exact ⟨hw.cells, hw.channels, hw.collectors, hw.jobs, hw.ended⟩

/-- What a job came to is lawful. -/
theorem waitJob (h : w.Lawful L) (k : KernelId) (id : JobId) {r : RunResult} (hr : (w.jobs k).result? id = some r) :
    L.result r :=
  JobTable.of_result? (h.jobsOf k) (fun _ => ⟨List.forall_mem_nil _, fun e he => by cases he; exact L.ofCause _⟩) hr

/-- Reading bytes leaves the values of a channel alone. -/
theorem reading {α : Type} (h : w.Lawful L) {onChannel : Channel → Step α × Channel} {onFile : OpenFile → Step α × OpenFile}
    (hc : ∀ c : Channel, c.Lawful L → (onChannel c).2.Lawful L) (inlet : Inlet) :
    (w.reading inlet onChannel onFile).2.Lawful L := by
  unfold World.reading
  split
  · split
    · exact h
    · rename_i c hi
      exact h.setChannel (hc c (h.channel hi)) _
  · split
    · exact h
    · exact ⟨h.cells, h.channels, h.collectors, h.jobs, h.ended⟩

/-- The next item of the input of a lawful machine is lawful. -/
theorem item (h : w.Lawful L) (who : TaskId) (inlet : Inlet) (m : Merging) :
    (w.item who inlet m).2.2.Lawful L ∧ ∀ v, (w.item who inlet m).1 = .done (some v) → L.value v := by
  unfold World.item
  cases inlet with
  | channel i =>
    dsimp only
    split
    · exact ⟨h, fun _ heq => nomatch heq⟩
    · rename_i c hc
      have hitem := (h.channel hc).item .values who m
      exact ⟨h.setChannel hitem.1 _, hitem.2⟩
  | file f =>
    have hline : (w.line who (.file f)).2.Lawful L := h.reading (fun _ => id) _
    refine ⟨hline, fun v hv => ?_⟩
    dsimp only at hv
    generalize (w.line who (.file f)).1 = step at hv
    cases step with
    | done o =>
      obtain ⟨line, -, rfl⟩ := Option.map_eq_some_iff.1 (Step.done.inj hv)
      exact L.string _
    | _ => nomatch hv

theorem write (h : w.Lawful L) (who : TaskId) (o : Outlet) (data : Bytes) : (w.write who o data).2.Lawful L := by
  unfold World.write
  split
  · split
    · exact h
    · rename_i c hc
      have hsame := h.channel hc
      have hchannel : (c.write who data).2.Lawful L := hsame
      have hw := fun i => h.setChannel hchannel i
      dsimp only
      split <;> exact hw _
  · split
    · exact h
    · exact ⟨h.cells, h.channels, h.collectors, h.jobs, h.ended⟩
  · exact h.modifyCollector _ fun _ hc => hc

/-- A lawful value is put on a lawful machine. -/
theorem put (h : w.Lawful L) (o : Outlet) {v : Value} (hv : L.value v) : (w.put o v).2.Lawful L := by
  unfold World.put
  split
  · split
    · exact h
    · rename_i c hc
      have hw := fun i => h.setChannel ((h.channel hc).put hv) i
      dsimp only
      split <;> exact hw _
  · exact h
  · exact h.modifyCollector _ fun c hc => List.forall_mem_cons.2 ⟨hv, hc⟩

theorem closeOutlet (h : w.Lawful L) (o : Outlet) : (w.closeOutlet o).Lawful L := by
  cases o with
  | channel c =>
    refine ⟨h.cells, forall_mem_modify h.channels ?_ c, h.collectors, h.jobs, h.ended⟩
    exact fun _ hc => hc
  | _ => exact h

theorem closeInlet (h : w.Lawful L) (i : Inlet) : (w.closeInlet i).Lawful L := by
  cases i with
  | channel c =>
    refine ⟨h.cells, forall_mem_modify h.channels ?_ c, h.collectors, h.jobs, h.ended⟩
    exact fun _ _ => Channel.Lawful.dropInlet
  | file f => exact h

/-- Files hold no values, so to open one keeps the law. -/
theorem openFile (h : w.Lawful L) (path : String) (mode : RedirMode) : (w.openFile path mode).2.Lawful L := by
  have hany : ∀ (files : FileTree) (handles : Array OpenFile), World.Lawful L { w with files, handles } :=
    fun _ _ => ⟨h.cells, h.channels, h.collectors, h.jobs, h.ended⟩
  unfold World.openFile
  split <;> split
  all_goals first | exact h | exact hany _ _

/-- A new frame holds the values it was given. -/
theorem activate (h : w.Lawful L) (home : Option FrameId) {vars : List (String × Value)} (hv : ∀ p ∈ vars, L.value p.2) :
    (w.activate home vars).2.Lawful L :=
  h.withCells (List.foldlRecOn (motive := fun s : Store => ∀ v ∈ s.cells, L.value v) vars _ h.cells
    fun _ hs p hp => Store.lawful_setVar hs _ _ (hv p hp))

/-- A task ends with a lawful outcome. -/
theorem endTask (h : w.Lawful L) (id : TaskId) {o : Outcome} (ho : L.outcome o) : (w.endTask id o).Lawful L :=
  ⟨h.cells, h.channels, h.collectors, h.jobs, List.forall_mem_append.2 ⟨h.ended, List.forall_mem_singleton.2 ho⟩⟩

/-- The outcome that is taken up is lawful. -/
theorem takeEnded (h : w.Lawful L) {id : TaskId} {o : Outcome} {w' : World} (ht : w.takeEnded id = some (o, w')) :
    w'.Lawful L ∧ L.outcome o := by
  unfold World.takeEnded at ht
  split at ht
  · rename_i e he
    cases ht
    exact ⟨⟨h.cells, h.channels, h.collectors, h.jobs, fun e he => h.ended e (List.mem_filter.1 he).1⟩,
      h.ended _ (List.mem_of_find?_eq_some he)⟩
  · nomatch ht

/-- An answer keeps the law if the step does. -/
theorem answerStep {α : Type} {step : Step α × World} (h : step.2.Lawful L) : (World.answerStep step).2.Lawful L := by
  unfold World.answerStep
  split <;> exact h

/-- Lawful requests get lawful answers and leave the machine lawful. -/
theorem perform (h : w.Lawful L) (who : TaskId) {r : Request} (hr : r.Lawful L) :
    (w.perform who r).2.Lawful L ∧ ∀ x, (w.perform who r).1 = some x → r.Brings L x := by
  have told : ∀ {r : Request} {x : r.Response} {w' : World}, w'.Lawful L → r.Brings L x →
      ((some x, w') : Answer r).2.Lawful L ∧ ∀ y, ((some x, w') : Answer r).1 = some y → r.Brings L y :=
    fun hw hx => ⟨hw, fun _ he => by cases he; exact hx⟩
  cases r with
  | cell f name access => exact told (h.withCells (Store.lawful_ensure h.cells f name)) trivial
  | peek f name => exact told h fun v hv => Store.lawful_getVar? h.cells hv
  | unbind f name => exact told (h.withCells h.cells) trivial
  | fixed name => exact told h fun v hv => L.fixedValue? hv
  | load c => exact told h (Store.lawful_get h.cells c)
  | store c v => exact told (h.withCells (Store.lawful_set h.cells c hr)) trivial
  | edit c change => exact told (h.withCells (Store.lawful_update h.cells hr c)) trivial
  | activate home vars imports => exact told (h.activate home hr) trivial
  | adopt v => exact told ⟨h.cells, h.channels, h.collectors, h.jobs, h.ended⟩ (L.adopt hr w.fresh)
  | setEnv k name text => exact told (h.modifyKernel k fun _ hj => hj) trivial
  | openChannel k =>
    refine told (h.addChannel ?_) trivial
    split <;> exact .create _ _
  | openInput data values => exact told (h.addChannel (.closedWith hr)) trivial
  | openCollector => exact told h.addCollector trivial
  | takeCollected k => exact told (h.takeCollected k).1 (h.takeCollected k).2
  | closeOutlet o => exact told (h.closeOutlet o) trivial
  | closeInlet i => exact told (h.closeInlet i) trivial
  | write o data => exact ⟨h.write who o data, fun _ _ => trivial⟩
  | put o v => exact ⟨h.put o hr, fun _ _ => trivial⟩
  | line i => exact ⟨World.Lawful.answerStep (h.reading (fun _ => id) i), fun _ _ => trivial⟩
  | toEnd i => exact ⟨World.Lawful.answerStep (h.reading (fun _ => id) i), fun _ _ => trivial⟩
  | upTo i count => exact ⟨World.Lawful.answerStep (h.reading (fun _ => id) i), fun _ _ => trivial⟩
  | item i m =>
    have hitem := h.item who i m
    simp only [World.perform]
    split
    all_goals
      rename_i heq
      rw [heq] at hitem
    · exact ⟨hitem.1, fun _ hx => by cases hx⟩
    · exact told hitem.1 hitem.2
  | openFile path mode => exact told (h.openFile path mode) trivial
  | claimModule key place =>
    simp only [World.perform]
    split
    · exact ⟨h, fun _ hx => by cases hx⟩
    all_goals exact told ⟨h.cells, h.channels, h.collectors, h.jobs, h.ended⟩ trivial
  | startJob p ctx => exact told (h.startJob p ctx) trivial
  | finishJob k id r => exact told (h.actJobs k (a := .finish id r) fun _ _ ha => by cases ha; exact hr) trivial
  | cleanupJobs k => exact told (h.actJobs k (a := .cleanup) fun _ _ ha => by cases ha) trivial
  | waitJob k id => exact ⟨h, fun r hr => h.waitJob k id hr⟩
  | forgetJob k id => exact told (h.actJobs k (a := .remove id) fun _ _ ha => by cases ha) trivial
  | join id =>
    simp only [World.perform]
    split
    · exact ⟨h, fun _ hx => by cases hx⟩
    · rename_i ht
      exact told (h.takeEnded ht).1 (h.takeEnded ht).2
  | _ => exact told ⟨h.cells, h.channels, h.collectors, h.jobs, h.ended⟩ trivial

/-! ## Kernels and their programs -/

/-- An empty machine holds no values. -/
theorem create (files : FileTree) (source : ModuleSource) : (World.create files source).Lawful L := by
  refine ⟨?_, ?_, ?_, ?_, List.forall_mem_nil _⟩ <;> simp [World.create, Store.empty]

theorem addKernel (h : w.Lawful L) (config : Config) (env : Environment) : (w.addKernel config env).2.Lawful L :=
  ⟨h.cells, h.channels, h.collectors, forall_mem_push h.jobs (List.forall_mem_nil _), h.ended⟩

/-- A variable of a top level gets a lawful value. -/
theorem setVar (h : w.Lawful L) (k : KernelId) (name : String) {v : Value} (hv : L.value v) :
    (w.setVar k name v).Lawful L := by
  unfold World.setVar
  split
  · exact World.Lawful.modifyKernel (h.withCells (Store.lawful_setVar h.cells _ name hv)) k fun _ hj => hj
  · exact h

/-- A program is started with its input. -/
theorem launch (h : w.Lawful L) {e : Evaluator} {k : KernelId} {globals : FrameId} {block : Code.Block} {input : Bytes}
    {values : List Value} (hvalues : L.values values) : (w.launch e k globals block input values).2.2.2.Lawful L :=
  ((h.addChannel (Channel.Lawful.closedWith hvalues)).addCollector).addCollector

end World.Lawful

end DualShell
