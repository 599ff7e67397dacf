import Mathlib
import DualShell.Proofs.Scope.History
import DualShell.Proofs.Scope.Target

/-!
# What a top level knows

A kernel keeps the names of its top level twice: the frame has those that are bound, and programs are resolved against
those that are known. A name that is bound is known exactly if no program that deletes it at the top level has made the
kernel forget it (`History.globals_known`), and a program that reads a known name resolves (`compile_read`). To make the
kernel forget a name, such a program has to resolve only; it need not come to the deletion.
-/

namespace DualShell

variable {Supplied : List Deed → Value → Prop} {ds : List Deed} {p : Pool}

/-! ## Names over time -/

/-- The names that a kernel knows are kept with its top level. -/
theorem World.names_eq (w : World) (k : KernelId) : w.names k = ((w.tops[k]?).map (·.2)).getD [] := by
  simp only [World.names, World.kernel?, World.tops, Array.getElem?_map]
  cases w.kernels[k]? <;> rfl

/-- Machines with the same top levels know the same names. -/
theorem World.names_congr {w w' : World} (h : w'.tops = w.tops) (k : KernelId) : w'.names k = w.names k := by
  rw [names_eq, names_eq, h]

/-- A new kernel knows no names. -/
theorem World.names_addKernel (w : World) (config : Config) (env : Environment) (k : KernelId) :
    (w.addKernel config env).2.names k = w.names k := by
  simp only [World.names, World.kernel?, World.addKernel, Array.getElem?_push]
  by_cases hk : k = w.kernels.size
  · subst hk
    simp
  · rw [if_neg hk]

/-- To give a kernel other names changes them there and nowhere else. -/
theorem World.names_rename (w : World) {k' : KernelId} {kernel : Kernel} (hk : w.kernel? k' = some kernel)
    (names : Kernel → List String)
    (k : KernelId) : (w.modifyKernel k' fun kernel => { kernel with names := names kernel }).names k =
      if k' = k then names kernel else w.names k := by
  simp only [World.names, World.kernel?, World.modifyKernel, Array.getElem?_modify]
  by_cases hkk : k' = k
  · subst hkk
    rw [if_pos rfl, if_pos rfl, show w.kernels[k']? = some kernel from hk]
    rfl
  · rw [if_neg hkk, if_neg hkk]

/-- Requests are not about the names that a top level knows. -/
theorem World.perform_tops (w : World) (who : TaskId) (r : Request) : (w.perform who r).2.tops = w.tops := by
  by_cases hleaves : r.LeavesFrames
  · exact (World.Alike.perform w who hleaves).tops
  · cases r with
    | startJob p ctx => exact (World.Quiet.setJobs w ctx.kernel ((w.jobs ctx.kernel).spawn p.text).2).tops
    | cell | unbind | taken | fixed | member | activate | spawn => rfl
    | _ => exact absurd trivial hleaves

/-- Tasks do nothing to the names that a top level knows. -/
theorem Pool.Step.tops {p' : Pool} (hs : p.Step ds p') : p'.world.tops = p.world.tops := by
  cases hs with
  | @answer _ who r _ _ w _ _ hx | @wait _ who r _ _ w _ hx =>
    have htops := w.perform_tops who r
    rwa [hx] at htops
  | finish | giveUp | takeUp => rfl

/-- A name that was forgotten before one more deed and is not put back by it is still forgotten. -/
theorem Forgotten.before {d : Deed} {k : KernelId} {n : String} (h : Forgotten (ds ++ [d]) k n) :
    (Forgotten ds k n ∧ ¬d.PutsBack k n) ∨ ∃ block names, d = .compiled k block names ∧ n ∉ names := by
  obtain ⟨earlier, block, names, later, hds, hdrop, hnames, hlater⟩ := h
  rcases History.split_deeds hds with ⟨rfl, rfl, rfl⟩ | ⟨later', rfl, rfl⟩
  · exact .inr ⟨block, names, rfl, hnames⟩
  · refine .inl ⟨⟨earlier, block, names, later', rfl, hdrop, hnames, fun d' hd' =>
      hlater d' (List.mem_append_left _ hd')⟩, ?_⟩
    exact hlater d (List.mem_append_right _ (List.mem_singleton_self d))

/-- A name that is forgotten after a deed was forgotten before, unless the deed compiles. -/
theorem Forgotten.quiet {d : Deed} {k : KernelId} {n : String} (h : Forgotten (ds ++ [d]) k n)
    (hd : ∀ k block names, d ≠ .compiled k block names) : Forgotten ds k n := by
  rcases h.before with h | ⟨block, names, rfl, -⟩
  · exact h.1
  · exact absurd rfl (hd k block names)

/-- What was forgotten is not known. -/
theorem History.not_known (h : History Supplied ds p) {k : KernelId} {n : String} (hf : Forgotten ds k n) :
    n ∉ p.world.names k := by
  induction h with
  | create files source =>
    obtain ⟨earlier, block, names, later, hds, -⟩ := hf
    simp at hds
  | step h hs ih =>
    rw [World.names_congr hs.tops]
    refine ih ?_
    cases hs with
    | answer | finish => exact hf.quiet fun _ _ _ heq => by cases heq
    | wait | giveUp | takeUp => rwa [List.append_nil] at hf
  | handOut h hv ih | clearModules h ih => exact ih (hf.quiet fun _ _ _ heq => by cases heq)
  | identify fresh h ih => exact ih hf
  | @addKernel ds tasks w config env h ih =>
    rw [World.names_addKernel]
    exact ih hf
  | @compile ds tasks w k' kernel chunk src block w' h hk hcompile ih =>
    obtain ⟨after, -, rfl, hnames⟩ := World.compile_ok hk hcompile
    rw [hnames] at hf
    rw [World.names_rename w hk]
    rcases hf.before with ⟨hf, hputs⟩ | ⟨block', names, heq, hn⟩
    · split
      · rename_i hkk
        exact fun hn => hputs ⟨hkk, hn⟩
      · exact ih hf
    · cases heq
      rwa [if_pos rfl]
  | @launch ds tasks w k' block names kernel values main out err w' l input h hblock hk hvalues hlaunch ih =>
    cases hlaunch
    exact ih hf
  | @setVar ds tasks w k' kernel v name h hk hv ih =>
    have hset : (w.setVar k' name v).names k = if k' = k then
        (if kernel.names.contains name then kernel.names else kernel.names ++ [name]) else w.names k := by
      rw [← World.names_rename w hk fun kernel => if kernel.names.contains name then
        kernel.names else kernel.names ++ [name]]
      simp only [World.setVar, hk]
      rfl
    have hold : n ∉ w.names k := ih (hf.quiet fun _ _ _ heq => by cases heq)
    rw [hset]
    split
    · rename_i hkk
      have hne : n ≠ name := by
        rintro rfl
        rcases hf.before with ⟨-, hputs⟩ | ⟨_, _, heq, -⟩
        · exact hputs ⟨hkk, rfl⟩
        · nomatch heq
      rw [← hkk, World.names, hk] at hold
      split
      · exact hold
      · simpa [hne] using hold
    · exact hold
  | @setEnv ds tasks w k' name text h ih =>
    have hquiet : w.Quiet (w.setEnv k' name text) := .modifyKernel w k' fun _ => ⟨rfl, rfl⟩
    rw [World.names_congr hquiet.tops]
    exact ih hf
  | @takeCollected ds tasks w c h ih =>
    rw [World.names_congr (World.Quiet.takeCollected w c).tops]
    exact ih hf
  | takeEnded h ht ih =>
    rw [World.names_congr (World.Quiet.takeEnded ht).tops]
    exact ih hf

/-- A name that is bound is known exactly if it was not forgotten. -/
theorem History.known_of_bound (h : History Supplied ds p) {k : KernelId} {n : String} {v : Value}
    (hv : p.world.getVar? k n = some v) : n ∈ p.world.names k ∨ Forgotten ds k n := by
  obtain ⟨G, hG⟩ := History.fits False (fun _ _ _ hfalse => hfalse.elim) h
  unfold World.getVar? at hv
  split at hv
  · rename_i kernel hk
    obtain ⟨c, hc, -⟩ := Option.map_eq_some_iff.1 hv
    have htop := World.tops_of_kernel hk
    rw [World.names_eq, htop]
    exact hG.known k _ n htop (hG.world.store.binds hc)
  · nomatch hv

/-! ## Reading a name -/

/-- The ways to write a name so that it is read where it is bound. -/
inductive Spells (n : String) : String → Prop
  | plain (h : splitName n = none) : Spells n n
  | qualified (h : n ≠ "") : Spells n ("local:" ++ n)

/-- The prefix for local names is split off. -/
theorem splitName_local {n : String} (h : n ≠ "") : splitName ("local:" ++ n) = some ("local", n) := by
  have hplain : ':' ∉ "local".toList := by decide
  have hmark : "local:" = "local" ++ ":" := by decide
  rw [hmark]
  exact splitName_qualified hplain (by decide) h

/-- At a top level a name is found there or not at all. -/
theorem Scope.resolve_top {s : Scope} (houter : s.outer = []) (name : String) :
    s.resolve name = (if s.inner.hasLocal name then some (.local name) else if s.inner.hasCapture name then
      some (s.captured name) else none, s) := by
  simp only [Scope.resolve, Scope.captureInner, houter, Scope.reach]
  split
  · rfl
  · split <;> rfl

/-- A known name is read as a variable of the top level. -/
theorem resolveRead_spelled {s : Scope} {n spelling : String} (hspells : Spells n spelling) (hn : s.isLocal n = true)
    (span : Span) : (resolveRead span spelling).run.run s = (.ok (.local n), s) := by
  cases hspells with
  | plain h => exact Compile.resolveRead_of_reads (.found h (Scope.resolve_local hn))
  | qualified h => exact Compile.resolveRead_of_reads (.here (splitName_local h) hn)

/-- At a top level every head resolves. -/
theorem resolveHead_top {s : Scope} (houter : s.outer = []) (span : Span) :
    ∃ head, (resolveHead span "put").run.run s = (.ok head, s) := by
  have hresolve : ∃ ref, (Compile.resolve "put~").run.run s = (.ok ref, s) := by
    refine ⟨(s.resolve "put~").1, ?_⟩
    change (Except.ok (s.resolve "put~").1, (s.resolve "put~").2) = _
    rw [Scope.resolve_top houter]
  obtain ⟨ref, hresolve⟩ := hresolve
  cases ref with
  | none => exact ⟨.builtin .put, Compile.run_bind hresolve⟩
  | some ref => exact ⟨.function "put" ref, Compile.run_bind hresolve⟩

/-- A program that reads a known name resolves, and reads it as a variable of the top level. -/
theorem compile_read {names : List String} {n spelling : String} (hspells : Spells n spelling) (hn : n ∈ names)
    (src : String) :
    ∃ block t, (Sample.chunk [Sample.command (.bare "put") [Sample.value spelling]]).compile src (.ofGlobals names) =
    (.ok block, t) ∧
      .local n ∈ block.mentions := by
  let s := Scope.ofGlobals names
  have hlocal : s.inner.hasLocal n = true := by
    simpa [StaticFrame.hasLocal, s, Scope.ofGlobals] using StaticFrame.mem_declareAll (f := .empty) (.inl hn)
  have hread := resolveRead_spelled (s := s) hspells hlocal ⟨0, 0⟩
  obtain ⟨head, hhead⟩ := resolveHead_top (s := s) rfl ⟨0, 0⟩
  have hword : (compileWord src ⟨0, 0⟩ (Sample.value spelling)).run.run s = (.ok (.var (.local n) false), s) := by
    unfold Sample.value compileWord
    exact Compile.run_bind hread
  have hwords : (compileWords src ⟨0, 0⟩ [Sample.value spelling]).run.run s = (.ok [.var (.local n) false], s) := by
    unfold compileWords
    exact Compile.run_bind hword
  have hcommand : (compileCommand src ⟨0, 0⟩ ⟨.bare "put", [Sample.value spelling], []⟩).run.run s =
      (.ok (.call ⟨head, [.var (.local n) false], []⟩), s) := by
    unfold compileCommand
    exact (Compile.run_bind hhead).trans (Compile.run_bind hwords)
  have hform : (compileForm src ⟨[], Sample.command (.bare "put") [Sample.value spelling], [], ⟨0, 0⟩⟩).run.run s =
      (.ok ⟨[], .call ⟨head, [.var (.local n) false], []⟩, [], ⟨src, ⟨0, 0⟩⟩⟩, s) := by
    unfold compileForm compileBody Sample.command
    exact Compile.run_bind hcommand
  have hforms : (compileForms src [⟨[], Sample.command (.bare "put") [Sample.value spelling], [], ⟨0, 0⟩⟩]).run.run s =
      (.ok [⟨[], .call ⟨head, [.var (.local n) false], []⟩, [], ⟨src, ⟨0, 0⟩⟩⟩], s) := by
    unfold compileForms
    exact Compile.run_bind hform
  obtain ⟨line, hline, hmem⟩ : ∃ line : Code.Pipeline, (compilePipeline src
      ⟨[⟨[], Sample.command (.bare "put") [Sample.value spelling], [], ⟨0, 0⟩⟩], false, ⟨0, 0⟩⟩).run.run s = (.ok line, s) ∧
        .local n ∈ line.mentions := by
    refine ⟨_, by unfold compilePipeline; exact Compile.run_bind hforms, ?_⟩
    simp [Code.Pipeline.mentions, Code.formsMentions, Code.Form.mentions, Code.redirsMentions, Code.assignsMentions,
      Code.Action.mentions, Code.Call.mentions, Code.operandsMentions, Code.Operand.mentions, Code.optsMentions,
      Ref.mentions]
  have hlines :
    (compilePipelines src [⟨[⟨[], Sample.command (.bare "put") [Sample.value spelling], [], ⟨0, 0⟩⟩], false,
      ⟨0, 0⟩⟩]).run.run s = (.ok [line], s) := by
    unfold compilePipelines
    exact Compile.run_bind hline
  have hchunk : (compileChunk src (Sample.chunk [Sample.command (.bare "put") [Sample.value spelling]])).run.run s =
      (.ok ⟨[line]⟩, s) := by
    unfold Sample.chunk compileChunk
    exact Compile.run_bind hlines
  refine ⟨⟨[line]⟩, s, ?_, by simpa [Code.Block.mentions, Code.pipelinesMentions] using hmem⟩
  unfold Source.Chunk.compile
  rw [hchunk]

namespace History

/-- A name that is bound at the top level of a kernel is known there, unless a program that deletes it has made the
kernel forget it; and then it is not known. Where it is known, a program that reads it resolves. -/
theorem globals_known (h : History Supplied ds p) {k : KernelId} {n : String} {v : Value}
    (hv : p.world.getVar? k n = some v) : (n ∈ p.world.names k ↔ ¬Forgotten ds k n) ∧
    (¬Forgotten ds k n → ∀ spelling src, Spells n spelling → ∃ block w',
      p.world.compile k (Sample.chunk [Sample.command (.bare "put") [Sample.value spelling]]) src = (.ok block, w') ∧
        .local n ∈ block.mentions) := by
  have hknown := h.known_of_bound hv
  refine ⟨⟨fun hn hf => h.not_known hf hn, hknown.resolve_right⟩, fun hf spelling src hspells => ?_⟩
  obtain ⟨block, t, hcompile, hmem⟩ := compile_read hspells (hknown.resolve_right hf) src
  exact ⟨block, _, by unfold World.compile; rw [hcompile], hmem⟩

/-- A program `x = kept` leaves a name that is bound. -/
theorem globals_known_assigned : ∃ ds v, (Sample.run Sample.machine [Sample.assign "x" (.bare "kept")]).2.getVar? 0
    "x" = some v ∧
    ("x" ∈ (Sample.run Sample.machine [Sample.assign "x" (.bare "kept")]).2.names 0 ↔ ¬Forgotten ds 0 "x") := by
  obtain ⟨ds, h⟩ := Sample.go (Sample.start fun _ _ => False) [Sample.assign "x" (.bare "kept")]
  have hbound : ((Sample.run Sample.machine [Sample.assign "x" (.bare "kept")]).2.getVar? 0 "x").isSome = true := by cbv
  obtain ⟨v, hv⟩ := Option.isSome_iff_exists.1 hbound
  exact ⟨[] ++ ds, v, hv, (h.globals_known hv).1⟩

/-- After `x = kept` a program `if $false { del x }` leaves `x` bound and makes it unknown: reading it does not resolve. -/
theorem bound_not_known : ∃ ds w, History (fun _ _ => False) ds ⟨[], w⟩ ∧
    (w.getVar? 0 "x").bind Value.string? = some "kept" ∧
    "x" ∉ w.names 0 ∧ Sample.fault (Sample.run w [Sample.command (.bare "put") [Sample.value "x"]]).1 =
    some (.unbound "x") := by
  obtain ⟨ds, h⟩ := Sample.go (Sample.start fun _ _ => False) [Sample.assign "x" (.bare "kept")]
  obtain ⟨ds', h'⟩ := Sample.go h
    [Sample.command (.bare "if") [Sample.value "false", Sample.lambda [Sample.command (.bare "del") [.bare "x"]]]]
  refine ⟨_, _, h', by cbv, ?_, by cbv⟩
  have hnames : (Sample.run (Sample.run Sample.machine [Sample.assign "x" (.bare "kept")]).2 [Sample.command (.bare "if")
      [Sample.value "false", Sample.lambda [Sample.command (.bare "del") [.bare "x"]]]]).2.names 0 = [] := by cbv
  rw [hnames]
  exact List.not_mem_nil

end History

end DualShell
