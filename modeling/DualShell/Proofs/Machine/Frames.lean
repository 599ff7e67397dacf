import DualShell.Machine.Perform
import DualShell.Proofs.Machine.Discipline

/-!
# Frames

Names are bound, found and dropped frame by frame, and what happens under one name leaves the others alone. Most
requests leave all frames alone, and the top levels with them (`World.Alike.perform`), and of these only those about the
place of a module start or settle anything (`World.Quiet.perform`).
-/

namespace DualShell

/-! ## Names of a frame -/

namespace Frame

variable (f : Frame) {name n : String}

/-- Other names are found as before. -/
theorem find?_others (vars : List (String × CellId)) (h : n ≠ name) :
    (vars.filter (·.1 != name)).find? (·.1 == n) = vars.find? (·.1 == n) := by
  rw [List.find?_filter]
  congr 1
  funext v
  by_cases hv : v.1 = n
  · simp [hv, h]
  · simp [hv]

/-- A name that was inserted is found. -/
theorem get?_insert_self (name : String) (c : CellId) : (f.insert name c).get? name = some c := by
  have hnone : (f.vars.filter (·.1 != name)).find? (·.1 == name) = none := by simp
  simp [get?, insert, List.find?_append, hnone]

/-- Names other than the inserted one are found as before. -/
theorem get?_insert_ne (h : n ≠ name) (c : CellId) : (f.insert name c).get? n = f.get? n := by
  simp [get?, insert, List.find?_append, find?_others f.vars h, h.symm]

/-- A name that was removed is not found. -/
theorem get?_remove_self (name : String) : (f.remove name).get? name = none := by
  simp [get?, remove]

/-- Names other than the removed one are found as before. -/
theorem get?_remove_ne (h : n ≠ name) : (f.remove name).get? n = f.get? n := by
  simp [get?, remove, find?_others f.vars h]

end Frame

namespace Store

variable (s : Store)

/-- A variable of a frame is the cell under its name. -/
theorem lookup?_eq (f : FrameId) (name : String) : s.lookup? f name = (s.frames[f]?).bind (·.get? name) := by
  unfold lookup? frame
  rw [Array.getD_eq_getD_getElem?]
  cases s.frames[f]? with
  | none => rfl
  | some frame => rfl

/-- A name that was bound has its cell. -/
theorem lookup?_bind_self {f : FrameId} (h : f < s.frames.size) (name : String) (c : CellId) :
    (s.bind f name c).lookup? f name = some c := by
  have hf : s.frames[f]? = some s.frames[f] := Array.getElem?_eq_getElem h
  rw [lookup?_eq]
  simp [bind, Array.getElem?_modify, hf, Frame.get?_insert_self]

/-- Other variables keep their cells when one is bound. -/
theorem lookup?_bind_ne {f g : FrameId} {name n : String} (h : ¬(g = f ∧ n = name)) (c : CellId) :
    (s.bind f name c).lookup? g n = s.lookup? g n := by
  rw [lookup?_eq, lookup?_eq]
  by_cases hg : g = f
  · subst hg
    have hn : n ≠ name := fun hn => h ⟨rfl, hn⟩
    cases hf : s.frames[g]? <;> simp [bind, Array.getElem?_modify, hf, Frame.get?_insert_ne _ hn]
  · have hg' : f ≠ g := fun h => hg h.symm
    simp [bind, Array.getElem?_modify, hg']

/-- To bind a name leaves the homes of frames. -/
theorem home_bind (f g : FrameId) (name : String) (c : CellId) :
    ((s.bind f name c).frames[g]?).map (·.home) = (s.frames[g]?).map (·.home) := by
  simp only [bind, Array.getElem?_modify]
  split
  · cases s.frames[g]? <;> rfl
  · rfl

/-- To unbind a name leaves the homes of frames. -/
theorem home_unbind (f g : FrameId) (name : String) :
    ((s.unbind f name).frames[g]?).map (·.home) = (s.frames[g]?).map (·.home) := by
  simp only [unbind, Array.getElem?_modify]
  split
  · cases s.frames[g]? <;> rfl
  · rfl

/-- A name that was unbound has no cell. -/
theorem lookup?_unbind_self (f : FrameId) (name : String) : (s.unbind f name).lookup? f name = none := by
  rw [lookup?_eq]
  cases hf : s.frames[f]? <;> simp [unbind, Array.getElem?_modify, hf, Frame.get?_remove_self]

/-- Other variables keep their cells when one is unbound. -/
theorem lookup?_unbind_ne {f g : FrameId} {name n : String} (h : ¬(g = f ∧ n = name)) :
    (s.unbind f name).lookup? g n = s.lookup? g n := by
  rw [lookup?_eq, lookup?_eq]
  by_cases hg : g = f
  · subst hg
    have hn : n ≠ name := fun hn => h ⟨rfl, hn⟩
    cases hf : s.frames[g]? <;> simp [unbind, Array.getElem?_modify, hf, Frame.get?_remove_ne _ hn]
  · have hg' : f ≠ g := fun h => hg h.symm
    simp [unbind, Array.getElem?_modify, hg']

/-- A new frame binds no name. -/
theorem lookup?_newFrame (home : Option FrameId) (g : FrameId) (name : String) :
    (s.newFrame home).2.lookup? g name = s.lookup? g name := by
  rw [lookup?_eq, lookup?_eq]
  simp only [newFrame, Array.getElem?_push]
  split
  · rename_i hg
    subst hg
    simp [Frame.get?]
  · rfl

/-- A name that has a cell keeps it when one is asked for. -/
theorem ensure_of_lookup? {f : FrameId} {name : String} {c : CellId} (h : s.lookup? f name = some c) :
    s.ensure f name = (c, s) := by
  unfold ensure
  rw [h]

/-- To ask for a cell makes no frame. -/
theorem size_ensure (f : FrameId) (name : String) : (s.ensure f name).2.frames.size = s.frames.size := by
  unfold ensure
  split
  · rfl
  · simp [newCell, bind]

/-- Afterwards there is a cell. -/
theorem lookup?_ensure_self {f : FrameId} (h : f < s.frames.size) (name : String) :
    (s.ensure f name).2.lookup? f name = some (s.ensure f name).1 := by
  cases hc : s.lookup? f name with
  | some c => rw [s.ensure_of_lookup? hc, hc]
  | none =>
    unfold ensure
    rw [hc]
    exact lookup?_bind_self ⟨s.cells.push .empty, s.frames⟩ h name _

/-- A cell that was there stays. -/
theorem lookup?_ensure_of_some {f g : FrameId} {name n : String} {c : CellId} (h : s.lookup? g n = some c) :
    (s.ensure f name).2.lookup? g n = some c := by
  cases hc : s.lookup? f name with
  | some c' => rwa [s.ensure_of_lookup? hc]
  | none =>
    have hne : ¬(g = f ∧ n = name) := by
      rintro ⟨rfl, rfl⟩
      rw [hc] at h
      nomatch h
    unfold ensure
    rw [hc]
    exact (lookup?_bind_ne ⟨s.cells.push .empty, s.frames⟩ hne _).trans h

/-! ## Growth -/

/-- Nothing is taken away from the store, and each new cell is found under a name. -/
structure Extends (s s' : Store) : Prop where
  cells : s.cells.size ≤ s'.cells.size
  frames : s.frames.size ≤ s'.frames.size
  bound : ∀ c, s.cells.size ≤ c → c < s'.cells.size → ∃ f n, s'.lookup? f n = some c

/-- And each name that has a cell keeps it. -/
structure Grows (s s' : Store) : Prop extends s.Extends s' where
  kept : ∀ {f n c}, s.lookup? f n = some c → s'.lookup? f n = some c

variable {s}

/-- A store of the same size extends the other. -/
theorem Extends.of_eq {s' : Store} (hframes : s'.frames.size = s.frames.size) (hcells : s'.cells.size = s.cells.size) :
    s.Extends s' :=
  ⟨Nat.le_of_eq hcells.symm, Nat.le_of_eq hframes.symm, fun _ hc hc' => absurd hc' (hcells ▸ Nat.not_lt.2 hc)⟩

/-- A store grows step by step. -/
theorem Grows.trans {s' s'' : Store} (h : s.Grows s') (h' : s'.Grows s'') : s.Grows s'' where
  cells := Nat.le_trans h.cells h'.cells
  frames := Nat.le_trans h.frames h'.frames
  kept hc := h'.kept (h.kept hc)
  bound c hc hc'' := by
    rcases Nat.lt_or_ge c s'.cells.size with hlt | hge
    · obtain ⟨f, n, hfound⟩ := h.bound c hc hlt
      exact ⟨f, n, h'.kept hfound⟩
    · exact h'.bound c hge hc''

/-- To ask for a cell makes a store grow. -/
theorem Grows.ensure {f : FrameId} (hf : f < s.frames.size) (name : String) : s.Grows (s.ensure f name).2 := by
  have hself := s.lookup?_ensure_self hf name
  refine ⟨⟨?_, Nat.le_of_eq (s.size_ensure f name).symm, fun c hc hc' => ⟨f, name, ?_⟩⟩, s.lookup?_ensure_of_some⟩
  · unfold Store.ensure
    split
    · exact Nat.le_refl _
    · simp [newCell, bind]
  · rw [hself]
    unfold Store.ensure at hc' ⊢
    split at hc'
    · exact absurd hc' (Nat.not_lt.2 hc)
    · simp only [newCell, bind, Array.size_push] at hc'
      exact congrArg some (Nat.le_antisymm hc (Nat.lt_succ_iff.1 hc'))

/-- To set a variable makes a store grow. -/
theorem Grows.setVar {f : FrameId} (hf : f < s.frames.size) (name : String) (v : Value) : s.Grows (s.setVar f name v) := by
  obtain ⟨⟨hcells, hframes, hbound⟩, hkept⟩ := Grows.ensure hf name
  have hsize : (s.setVar f name v).cells.size = (s.ensure f name).2.cells.size := by simp [Store.setVar, set]
  exact ⟨⟨hsize ▸ hcells, hframes, fun c hc hc' => hbound c hc (hsize ▸ hc')⟩, hkept⟩

/-- A new frame makes a store grow. -/
theorem Grows.newFrame (s : Store) (home : Option FrameId) : s.Grows (s.newFrame home).2 where
  cells := Nat.le_refl _
  frames := by simp [Store.newFrame]
  kept hc := (s.lookup?_newFrame home _ _).trans hc
  bound c hc hc' := absurd hc' (Nat.not_lt.2 hc)

/-- To set variables makes a store grow. -/
theorem Grows.setVars {f : FrameId} : (vars : List (String × Value)) → ∀ {s : Store}, f < s.frames.size →
    s.Grows (vars.foldl (fun (store : Store) v => store.setVar f v.1 v.2) s)
  | [], _, _ => ⟨.of_eq rfl rfl, id⟩
  | (name, v) :: vars, _, hf =>
    have hgrows := Grows.setVar hf name v
    hgrows.trans (setVars vars (Nat.lt_of_lt_of_le hf hgrows.frames))

end Store

/-! ## Streams -/

/-- Two machines that differ at most in what their streams and files hold. -/
def World.Streams (w w' : World) : Prop :=
  w' = { w with channels := w'.channels, handles := w'.handles, collectors := w'.collectors, files := w'.files }

/-- Requests about streams and files that are open. -/
def Request.IsStream : Request → Prop
  | .openChannel .. | .openInput .. | .openCollector | .takeCollected .. | .closeOutlet .. | .closeInlet .. | .write ..
      | .put .. | .line ..
  | .toEnd .. | .upTo .. | .item .. | .openFile .. => True
  | _ => False

namespace World.Streams

/-- To read is a matter of streams. -/
theorem reading {α : Type} (w : World) (inlet : Inlet) (onChannel : Channel → Step α × Channel)
    (onFile : OpenFile → Step α × OpenFile) : w.Streams (w.reading inlet onChannel onFile).2 := by
  unfold World.reading
  split <;> split <;> rfl

/-- An answer is a matter of streams if the step is. -/
theorem answerStep {w : World} {α : Type} {step : Step α × World} (h : w.Streams step.2) :
    w.Streams (World.answerStep step).2 := by
  unfold World.answerStep
  split <;> exact h

/-- To take the next item is a matter of streams. -/
theorem item (w : World) (who : TaskId) (inlet : Inlet) (m : Merging) : w.Streams (w.item who inlet m).2.2 := by
  unfold World.item
  split
  · split <;> rfl
  · exact reading w _ _ _

/-- To write is a matter of streams. -/
theorem write (w : World) (who : TaskId) (o : Outlet) (data : Bytes) : w.Streams (w.write who o data).2 := by
  unfold World.write
  split
  · split
    · rfl
    · dsimp only
      split <;> rfl
  · split <;> rfl
  · rfl

/-- To put a value is a matter of streams. -/
theorem put (w : World) (o : Outlet) (v : Value) : w.Streams (w.put o v).2 := by
  unfold World.put
  split
  · split
    · rfl
    · dsimp only
      split <;> rfl
  · rfl
  · rfl

/-- To open a file is a matter of streams. -/
theorem openFile (w : World) (path : String) (mode : RedirMode) : w.Streams (w.openFile path mode).2 := by
  unfold World.openFile
  split <;> split <;> rfl

theorem takeCollected (w : World) (k : CollectorId) : w.Streams (w.takeCollected k).2 := by
  unfold World.takeCollected
  split <;> rfl

/-- Requests about streams change streams and files only. -/
theorem perform (w : World) (who : TaskId) {r : Request} (hr : r.IsStream) : w.Streams (w.perform who r).2 := by
  cases r with
  | openChannel | openInput | openCollector => rfl
  | takeCollected k => exact takeCollected w k
  | closeOutlet o => cases o <;> rfl
  | closeInlet i => cases i <;> rfl
  | write o data => exact write w who o data
  | put o v => exact put w o v
  | line i => exact answerStep (reading w _ _ _)
  | toEnd i => exact answerStep (reading w _ _ _)
  | upTo i count => exact answerStep (reading w _ _ _)
  | item i m =>
    have hitem := item w who i m
    simp only [World.perform]
    split
    · rename_i heq
      rwa [heq] at hitem
    · rename_i heq
      rwa [heq] at hitem
  | openFile path mode => exact openFile w path mode
  | _ => exact hr.elim

variable {w w' : World}

/-- What streams are used for leaves the store. -/
theorem store (h : w.Streams w') : w'.store = w.store := by rw [h]

/-- What streams are used for ends no task. -/
theorem ended (h : w.Streams w') : w'.ended = w.ended := by rw [h]

/-- What streams are used for leaves the kernels. -/
theorem kernels (h : w.Streams w') : w'.kernels = w.kernels := by rw [h]

end World.Streams

/-! ## Machines -/

/-- The top levels of the kernels, with the names that programs may refer to. -/
def World.tops (w : World) : Array (FrameId × List String) := w.kernels.map fun kernel => (kernel.globals, kernel.names)

/-- Two machines with the same variables and the same top levels, on which the same work is to be started. -/
structure World.Alike (w w' : World) : Prop where
  frames : w'.store.frames = w.store.frames
  cells : w'.store.cells.size = w.store.cells.size
  spawned : w'.spawned = w.spawned
  tops : w'.tops = w.tops

theorem World.Alike.refl (w : World) : w.Alike w := ⟨rfl, rfl, rfl, rfl⟩

/-- The store of a machine is extended by that of one that is alike. -/
theorem World.Alike.extends {w w' : World} (h : w.Alike w') : w.store.Extends w'.store :=
  .of_eq (congrArg Array.size h.frames) h.cells

/-- Two machines that differ only in values, streams, files, environments and jobs. -/
structure World.Quiet (w w' : World) : Prop extends World.Alike w w' where
  nextTask : w'.nextTask = w.nextTask
  modules : w'.modules = w.modules

/-- Requests about the place of a module. -/
def Request.ConcernsPlace : Request → Prop
  | .findModule .. | .claimModule .. | .settleModule .. => True
  | _ => False

namespace World.Quiet

variable {w w' : World}

theorem refl (w : World) : w.Quiet w := ⟨.refl w, rfl, rfl⟩

/-- What only changes streams and files is quiet. -/
theorem of_streams (h : w.Streams w') : w.Quiet w' := by
  rw [h]
  exact ⟨⟨rfl, rfl, rfl, rfl⟩, rfl, rfl⟩

/-- A kernel changes, but not its top level. -/
theorem modifyKernel (w : World) (k : KernelId) {change : Kernel → Kernel}
    (h : ∀ kernel, (change kernel).globals = kernel.globals ∧ (change kernel).names = kernel.names) :
    w.Quiet (w.modifyKernel k change) := by
  refine ⟨⟨rfl, rfl, rfl, Array.ext_getElem? fun i => ?_⟩, rfl, rfl⟩
  simp only [World.tops, World.modifyKernel, Array.getElem?_map, Array.getElem?_modify]
  split
  · cases w.kernels[i]? with
    | none => rfl
    | some kernel => simp [h kernel]
  · rfl

/-- A table of jobs is set quietly. -/
theorem setJobs (w : World) (k : KernelId) (jobs : JobTable) : w.Quiet (w.setJobs k jobs) :=
  modifyKernel w k fun _ => ⟨rfl, rfl⟩

theorem takeCollected (w : World) (k : CollectorId) : w.Quiet (w.takeCollected k).2 := of_streams (.takeCollected w k)

/-- To take up an outcome is quiet. -/
theorem takeEnded {id : TaskId} {o : Outcome} (h : w.takeEnded id = some (o, w')) : w.Quiet w' := by
  unfold World.takeEnded at h
  split at h
  · cases h
    exact ⟨⟨rfl, rfl, rfl, rfl⟩, rfl, rfl⟩
  · nomatch h

/-- Only requests that name variables, frames, work or the place of a module change more. -/
theorem perform (w : World) (who : TaskId) {r : Request} (hr : r.LeavesFrames) (hplace : ¬r.ConcernsPlace) :
    w.Quiet (w.perform who r).2 := by
  have cells : ∀ {store : Store}, store.frames = w.store.frames → store.cells.size = w.store.cells.size →
      w.Quiet { w with store } := fun hf hc => ⟨⟨hf, hc, rfl, rfl⟩, rfl, rfl⟩
  by_cases hstream : r.IsStream
  · exact of_streams (.perform w who hstream)
  cases r with
  | cell | unbind | taken | fixed | member | activate | startJob | spawn => exact hr.elim
  | findModule | claimModule | settleModule => exact absurd trivial hplace
  | store c v => exact cells rfl (by simp [Store.set])
  | edit c change =>
    simp only [World.perform, Store.update]
    split
    · exact cells rfl (by simp [Store.set])
    · exact .refl w
  | setEnv k name text => exact modifyKernel w k fun _ => ⟨rfl, rfl⟩
  | finishJob k id r => exact setJobs w k _
  | cleanupJobs k => exact setJobs w k _
  | forgetJob k id => exact setJobs w k _
  | join id =>
    simp only [World.perform]
    split
    · exact .refl w
    · rename_i heq
      exact takeEnded heq
  | peek | load | identity | adopt | freeze | getEnv | environment | readFile | workingDirectory | expand | program
      | resolveModule
  | fetchModule | listJobs | findJob | waitJob => exact ⟨⟨rfl, rfl, rfl, rfl⟩, rfl, rfl⟩
  | _ => exact absurd trivial hstream

end World.Quiet

/-- Only requests that name variables, frames or work change what the layout is about. -/
theorem World.Alike.perform (w : World) (who : TaskId) {r : Request} (hr : r.LeavesFrames) :
    w.Alike (w.perform who r).2 := by
  by_cases hplace : r.ConcernsPlace
  · cases r with
    | findModule key => exact ⟨rfl, rfl, rfl, rfl⟩
    | settleModule key place ns => exact ⟨rfl, rfl, rfl, rfl⟩
    | claimModule key place =>
      simp only [World.perform]
      split <;> exact ⟨rfl, rfl, rfl, rfl⟩
    | _ => exact hplace.elim
  · exact (World.Quiet.perform w who hr hplace).toAlike

end DualShell
