import DualShell.Kernel.Execute
import DualShell.Proofs.Machine.Answers
import DualShell.Proofs.Machine.Steps

/-!
# Histories

All that can happen to a machine and to what runs on it, in any order: steps of tasks, and what is done to kernels from
outside. A history is told by its deeds. The executions of programs are among them (`History.executeWithin`).

Values come from outside, too. A value was made from what was handed out (`Made`) if nothing of the inside is in it that
was not in one of those.
-/

namespace DualShell

/-- The value holds nothing of the inside that the machine does not hold. -/
def World.Knows (w : World) (v : Value) : Prop := ∀ q, w.Sound q → v.Sound q

/-- The value holds nothing of the inside that was not handed out. -/
def Made (ds : List Deed) (v : Value) : Prop := ∀ q, (∀ u, .handed u ∈ ds → u.Sound q) → v.Sound q

/-- What can happen from an empty machine on, where values that satisfy `Supplied` come from outside. -/
inductive History (Supplied : List Deed → Value → Prop) : List Deed → Pool → Prop
  | create (files : FileTree) (source : ModuleSource) : History Supplied [] ⟨[], .create files source⟩
  /-- Tasks go on. -/
  | step {ds p ds' p'} (h : History Supplied ds p) (hs : p.Step ds' p') : History Supplied (ds ++ ds') p'
  | addKernel {ds tasks w} (config : Config) (env : Environment) (h : History Supplied ds ⟨tasks, w⟩) :
      History Supplied ds ⟨tasks, (w.addKernel config env).2⟩
  | compile {ds tasks w k kernel chunk src block w'} (h : History Supplied ds ⟨tasks, w⟩) (hk : w.kernel? k = some kernel)
      (hcompile : w.compile k chunk src = (.ok block, w')) :
      History Supplied (ds ++ [.compiled k block (w'.names k)]) ⟨tasks, w'⟩
  /-- A program that resolved earlier is started on its kernel. -/
  | launch {ds tasks w k block names kernel values main out err w'} (l : Limits) (input : Bytes)
      (h : History Supplied ds ⟨tasks, w⟩)
      (hblock : .compiled k block names ∈ ds) (hk : w.kernel? k = some kernel) (hvalues : ∀ v ∈ values, Supplied ds v)
      (hlaunch : w.launch l.evaluator k kernel.globals block input values = (main, out, err, w')) :
      History Supplied ds ⟨tasks ++ [(w'.nextTask, main)], { w' with nextTask := w'.nextTask + 1 }⟩
  | setVar {ds tasks w k kernel v} (name : String) (h : History Supplied ds ⟨tasks, w⟩) (hk : w.kernel? k = some kernel)
      (hv : Supplied ds v) : History Supplied (ds ++ [.assigned k name]) ⟨tasks, w.setVar k name v⟩
  | setEnv {ds tasks w} (k : KernelId) (name text : String) (h : History Supplied ds ⟨tasks, w⟩) :
      History Supplied ds ⟨tasks, w.setEnv k name text⟩
  | handOut {ds tasks w v} (h : History Supplied ds ⟨tasks, w⟩) (hv : w.Knows v) :
      History Supplied (ds ++ [.handed v]) ⟨tasks, w⟩
  | takeCollected {ds tasks w} (c : CollectorId) (h : History Supplied ds ⟨tasks, w⟩) :
      History Supplied ds ⟨tasks, (w.takeCollected c).2⟩
  | takeEnded {ds tasks w id o w'} (h : History Supplied ds ⟨tasks, w⟩) (ht : w.takeEnded id = some (o, w')) :
      History Supplied ds ⟨tasks, w'⟩
  | identify {ds tasks w} (fresh : Nat) (h : History Supplied ds ⟨tasks, w⟩) : History Supplied ds ⟨tasks, { w with fresh }⟩
  | clearModules {ds tasks w} (h : History Supplied ds ⟨tasks, w⟩) :
      History Supplied (ds ++ [.cleared]) ⟨tasks, { w with modules := w.modules.clear }⟩

namespace History

variable {Supplied : List Deed → Value → Prop} {ds : List Deed} {w : World}

/-! ## Looking back -/

/-- A deed of a history that has just gone on is the latest one, or was there before. -/
theorem split_deeds {earlier later : List Deed} {d e : Deed} (h : ds ++ [d] = earlier ++ e :: later) :
    (ds = earlier ∧ d = e ∧ later = []) ∨ ∃ later', ds = earlier ++ e :: later' ∧ later = later' ++ [d] := by
  rcases List.eq_nil_or_concat later with rfl | ⟨later', e', rfl⟩
  · obtain ⟨hds, hd⟩ := List.append_inj' h rfl
    exact .inl ⟨hds, List.singleton_inj.1 hd, rfl⟩
  · have h' : ds ++ [d] = (earlier ++ e :: later') ++ [e'] := by simpa using h
    obtain ⟨hds, hd⟩ := List.append_inj' h' rfl
    exact .inr ⟨later', hds, by simpa using (List.singleton_inj.1 hd).symm⟩

/-- An answer was given to a task that stood at the request, by a machine with the deeds before it behind it. -/
theorem asked {earlier later : List Deed} {who : TaskId} {w w' : World} {r : Request} {x : r.Response} {p : Pool}
    (h : History Supplied (earlier ++ .answered who w r x w' :: later) p) :
    ∃ before next after, History Supplied earlier ⟨before ++ (who, .request r next) :: after, w⟩ ∧
      w.perform who r = (some x, w') := by
  generalize hds : earlier ++ .answered who w r x w' :: later = ds at h
  induction h generalizing later with
  | create => simp at hds
  | step h hs ih =>
    cases hs with
    | answer hx =>
      rcases split_deeds hds.symm with ⟨rfl, heq, -⟩ | ⟨later', hds', -⟩
      · cases heq
        exact ⟨_, _, _, h, hx⟩
      · exact ih hds'.symm
    | finish =>
      rcases split_deeds hds.symm with ⟨-, heq, -⟩ | ⟨later', hds', -⟩
      · nomatch heq
      · exact ih hds'.symm
    | wait | giveUp | takeUp =>
      rw [List.append_nil] at hds
      exact ih hds
  | compile h hk hcompile ih | setVar name h hk hv ih | handOut h hv ih | clearModules h ih =>
    rcases split_deeds hds.symm with ⟨-, heq, -⟩ | ⟨later', hds', -⟩
    · nomatch heq
    · exact ih hds'.symm
  | addKernel config env h ih | launch l input h hblock hk hvalues hlaunch ih | setEnv k name text h ih
      | takeCollected c h ih
  | takeEnded h ht ih | identify fresh h ih => exact ih hds

/-- The first deeds of a history that has just gone on are all of them, or were the first ones before. -/
theorem split_prefix {ds' all : List Deed} {d : Deed} (h : ds ++ ds' = all ++ [d]) :
    ds = all ++ [d] ∨ ∃ ds'', ds ++ ds'' = all := by
  rcases List.eq_nil_or_concat ds' with rfl | ⟨ds'', d', rfl⟩
  · exact .inl (by simpa using h)
  · rw [List.concat_eq_append, ← List.append_assoc] at h
    exact .inr ⟨ds'', (List.append_inj' h rfl).1⟩

/-- What was done up to a point is a history. -/
theorem upTo {ds' : List Deed} {p : Pool} (h : History Supplied (ds ++ ds') p) : ∃ p', History Supplied ds p' := by
  generalize hall : ds ++ ds' = all at h
  induction h generalizing ds' with
  | create files source =>
    obtain rfl := (List.append_eq_nil_iff.1 hall).1
    exact ⟨_, .create files source⟩
  | step h hs ih =>
    cases hs with
    | answer hx =>
      rcases split_prefix hall with rfl | ⟨_, hprefix⟩
      · exact ⟨_, h.step (.answer hx)⟩
      · exact ih hprefix
    | finish =>
      rcases split_prefix hall with rfl | ⟨_, hprefix⟩
      · exact ⟨_, h.step .finish⟩
      · exact ih hprefix
    | wait | giveUp | takeUp =>
      rw [List.append_nil] at hall
      exact ih hall
  | compile h hk hcompile ih =>
    rcases split_prefix hall with rfl | ⟨_, hprefix⟩
    · exact ⟨_, h.compile hk hcompile⟩
    · exact ih hprefix
  | setVar name h hk hv ih =>
    rcases split_prefix hall with rfl | ⟨_, hprefix⟩
    · exact ⟨_, h.setVar name hk hv⟩
    · exact ih hprefix
  | handOut h hv ih =>
    rcases split_prefix hall with rfl | ⟨_, hprefix⟩
    · exact ⟨_, h.handOut hv⟩
    · exact ih hprefix
  | clearModules h ih =>
    rcases split_prefix hall with rfl | ⟨_, hprefix⟩
    · exact ⟨_, h.clearModules⟩
    · exact ih hprefix
  | addKernel config env h ih | launch l input h hblock hk hvalues hlaunch ih | setEnv k name text h ih
      | takeCollected c h ih
  | takeEnded h ht ih | identify fresh h ih => exact ih hall

/-! ## Going on -/

/-- Tasks go on step by step. -/
theorem goes {ds' : List Deed} {p p' : Pool} (h : History Supplied ds p) (hgoes : p.Goes ds' p') :
    History Supplied (ds ++ ds') p' := by
  induction hgoes generalizing ds with
  | refl p => rwa [List.append_nil]
  | step hs _ ih =>
    rw [← List.append_assoc]
    exact ih (h.step hs)

/-- Tasks go on, and what is left of them is given up. -/
theorem goesOut {ds' : List Deed} {p p' : Pool} (h : History Supplied ds p) (hgoes : p.Goes ds' p') :
    History Supplied (ds ++ ds') ⟨[], p'.world⟩ := by
  have h' := (h.goes hgoes).goes (.giveUpAll p'.tasks)
  rwa [List.append_nil] at h'

/-- Steps of tasks forget no modules. -/
theorem not_cleared {ds' : List Deed} {p p' : Pool} (hgoes : p.Goes ds' p') : .cleared ∉ ds' := by
  induction hgoes with
  | refl p => exact List.not_mem_nil
  | step hs _ ih =>
    intro hc
    rcases List.mem_append.1 hc with hc | hc
    · cases hs with
      | answer | finish => nomatch List.mem_singleton.1 hc
      | wait | giveUp | takeUp => nomatch hc
    · exact ih hc

/-- A program that resolved is run until nothing moves. -/
theorem runBlock {values : List Value} {names : List String} {block : Code.Block} {k : KernelId}
    (h : History Supplied ds ⟨[], w⟩)
    (hblock : .compiled k block names ∈ ds) (l : Limits) (input : Bytes) (hvalues : ∀ v ∈ values, Supplied ds v) :
    ∃ ds', .cleared ∉ ds' ∧ History Supplied (ds ++ ds') ⟨[], (w.runBlock l k block input values).2⟩ := by
  unfold World.runBlock
  split
  · exact ⟨[], List.not_mem_nil, by simpa using h⟩
  · rename_i kernel hk
    rcases hlaunch : w.launch l.evaluator k kernel.globals block input values with ⟨main, out, err, w'⟩
    have hstart := h.launch l input hblock hk hvalues hlaunch
    have hgoes := Pool.Goes.run l l.requests l.rounds ⟨[(w'.nextTask, main)], { w' with nextTask := w'.nextTask + 1 }⟩
    have hrun := hstart.goesOut hgoes
    simp only [Limits.run]
    generalize Pool.run l.evaluator.evalWork l.requests l.rounds _ = pool at hrun ⊢
    refine ⟨_, not_cleared hgoes, ?_⟩
    cases hended : pool.world.takeEnded w'.nextTask with
    | none => exact hrun
    | some ended => exact ((hrun.takeEnded hended).takeCollected out).takeCollected err

/-- A program that resolves adds to the names of its kernel. -/
theorem compile_block {k : KernelId} {chunk : Source.Chunk} {src : String} {block : Code.Block} {w' : World}
    (h : w.compile k chunk src = (.ok block, w')) : ∃ scope, chunk.compile src (.ofGlobals (w.names k)) =
    (.ok block, scope) ∧
      w' = w.modifyKernel k fun kernel => { kernel with names := scope.globals } := by
  unfold World.compile at h
  split at h
  · rename_i scope hcompile
    cases h
    exact ⟨scope, hcompile, rfl⟩
  · nomatch h

/-- A program that does not resolve changes nothing, and neither does one for a kernel that there is not. -/
theorem compile_same {k : KernelId} {chunk : Source.Chunk} {src : String} {compiled : Except CompileError Code.Block}
    {w' : World}
    (hcompile : w.compile k chunk src = (compiled, w')) (h : w.kernel? k = none ∨ ∃ e, compiled = .error e) : w' = w := by
  unfold World.compile at hcompile
  split at hcompile
  · cases hcompile
    rcases h with hk | ⟨e, he⟩
    · have hkernels : ∀ change, w.kernels.modify k change = w.kernels := fun change => Array.ext_getElem? fun i => by
        rw [Array.getElem?_modify]
        split
        · rename_i hi
          rw [← hi, show w.kernels[k]? = none from hk]
          rfl
        · rfl
      simp only [World.modifyKernel, hkernels]
    · nomatch he
  · cases hcompile
    rfl

/-- The execution of a program is part of a history, in which no modules are forgotten. -/
theorem executeWithin {values : List Value} (h : History Supplied ds ⟨[], w⟩) (l : Limits) (k : KernelId)
    (chunk : Source.Chunk) (src : String) (input : Bytes) (hvalues : ∀ v ∈ values, ∀ ds', Supplied (ds ++ ds') v) :
    ∃ ds', .cleared ∉ ds' ∧ History Supplied (ds ++ ds') ⟨[], (w.executeWithin l k chunk src input values).2⟩ := by
  rcases hcompile : w.compile k chunk src with ⟨compiled, w'⟩
  unfold World.executeWithin
  rw [hcompile]
  cases compiled with
  | error e => exact ⟨[], List.not_mem_nil, by simpa [compile_same hcompile (.inr ⟨e, rfl⟩)] using h⟩
  | ok block =>
    cases hk : w.kernel? k with
    | none => exact ⟨[], List.not_mem_nil, by simpa [compile_same hcompile (.inl hk), World.runBlock, hk] using h⟩
    | some kernel =>
      obtain ⟨ds', hclear, h'⟩ :=
        (h.compile hk hcompile).runBlock (List.mem_append_right _ (List.mem_singleton_self _)) l input
        fun v hv => hvalues v hv _
      refine ⟨_ :: ds', fun hc => ?_, by simpa using h'⟩
      rcases List.mem_cons.1 hc with heq | hc
      · nomatch heq
      · exact hclear hc

end History

/-! ## A machine to try things on -/

namespace Sample

/-- Forms one after another. -/
def chunk (bodies : List Source.Body) : Source.Chunk := ⟨bodies.map fun body => ⟨[⟨[], body, [], ⟨0, 0⟩⟩], false, ⟨0, 0⟩⟩⟩

/-- An assignment of one word. -/
def assign (name : String) (word : Source.Word) : Source.Body := .assign ⟨[⟨name, [], false⟩], [word]⟩

/-- A command without options. -/
def command (head : Source.Word) (args : List Source.Word) : Source.Body := .command ⟨head, args, []⟩

/-- The value of a variable. -/
def value (name : String) : Source.Word := .variable name false

/-- A lambda without parameters. -/
def lambda (bodies : List Source.Body) : Source.Word := .lambda [] (chunk bodies)

/-- A machine with one kernel and no files. -/
def machine : World := ((World.create ⟨[], []⟩ (.table [])).addKernel ⟨"", "", "duo", 64, 8⟩ []).2

/-- A machine with one kernel, no files, and modules by path. -/
def library (modules : List (String × List Source.Body)) : World :=
  ((World.create ⟨[], []⟩ (.table (modules.map fun m => (m.1, chunk m.2)))).addKernel ⟨"", "", "duo", 64, 8⟩ []).2

/-- Limits that are wide enough for a short program. -/
def limits : Limits := ⟨30, 10, 100, 10⟩

/-- The machine after a program, and what the program came to. -/
def run (w : World) (bodies : List Source.Body) : Execution × World := w.executeWithin limits 0 (chunk bodies) "" [] []

/-- The texts that a program put. -/
def texts : Execution → List (Option String)
  | .ran r => r.values.map Value.string?
  | _ => []

/-- Why a program did not resolve. -/
def fault : Execution → Option CompileFault
  | .rejected e => some e.fault
  | _ => none

/-- The machine is made with one kernel. -/
theorem start (Supplied : List Deed → Value → Prop) : History Supplied [] ⟨[], machine⟩ := .addKernel _ _ (.create _ _)

theorem startLibrary (Supplied : List Deed → Value → Prop) (modules : List (String × List Source.Body)) :
    History Supplied [] ⟨[], library modules⟩ := .addKernel _ _ (.create _ _)

/-- The machine goes on with a program, and forgets no modules. -/
theorem goOn {Supplied : List Deed → Value → Prop} {ds : List Deed} {w : World} (h : History Supplied ds ⟨[], w⟩)
    (bodies : List Source.Body) : ∃ ds', .cleared ∉ ds' ∧ History Supplied (ds ++ ds') ⟨[], (run w bodies).2⟩ :=
  h.executeWithin limits 0 (chunk bodies) "" [] (List.forall_mem_nil _)

/-- The machine goes on with a program. -/
theorem go {Supplied : List Deed → Value → Prop} {ds : List Deed} {w : World} (h : History Supplied ds ⟨[], w⟩)
    (bodies : List Source.Body) : ∃ ds', History Supplied (ds ++ ds') ⟨[], (run w bodies).2⟩ :=
  let ⟨ds', _, h'⟩ := goOn h bodies
  ⟨ds', h'⟩

end Sample

end DualShell
