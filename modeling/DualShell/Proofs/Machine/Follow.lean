import DualShell.Proofs.Machine.Protocol

/-!
# Histories follow protocols

After every history all tasks are where the protocol admits them (`Pool.Follows`), so each request that was answered was
allowed (`History.conforms`), and so is the one a task stands at (`History.stands`).
-/

namespace DualShell

variable {P : Protocol} {ds : List Deed} {tasks : List (TaskId × Task Outcome)} {w : World}

/-- The tasks keep to the protocol from where their deeds have led them, and what is started or resolved may run. -/
structure Pool.Follows (P : Protocol) (ds : List Deed) (p : Pool) : Prop where
  numbered : p.Numbered ds
  sound : p.world.Sound P.quality
  tasks : ∀ t ∈ p.tasks, P.Allows (P.stateOf t.1 ds) t.2
  spawned : ∀ s ∈ p.world.spawned, P.stateOf s.1 ds = P.start s.2.ctx.imports ∧
    P.Admits (P.start s.2.ctx.imports) s.2.ctx s.2.mentions
  compiled : ∀ k block names, .compiled k block names ∈ ds → ∀ ctx : Context, ctx.imports = [] →
    P.Admits (P.start []) ctx block.mentions
  handed : ∀ v, .handed v ∈ ds → v.Sound P.quality

namespace Pool.Follows

/-- What only changes values, streams, files, environments or jobs leaves the tasks where they are. -/
theorem congr (h : Pool.Follows P ds ⟨tasks, w⟩) {w' : World} (hnext : w'.nextTask = w.nextTask)
    (hspawned : w'.spawned = w.spawned) (hsound : w'.Sound P.quality) : Pool.Follows P ds ⟨tasks, w'⟩ where
  numbered := h.numbered.fewer (by simp [Pool.ids, hspawned]) hnext (by simp [hspawned])
  sound := hsound
  tasks := h.tasks
  spawned := hspawned ▸ h.spawned
  compiled := h.compiled
  handed := h.handed

/-- Tasks go away. -/
theorem fewer (h : Pool.Follows P ds ⟨tasks, w⟩) {tasks' : List (TaskId × Task Outcome)} (hsub : tasks'.Sublist tasks) :
    Pool.Follows P ds ⟨tasks', w⟩ where
  numbered := h.numbered.fewer ((hsub.map _).append (List.Sublist.refl _)) rfl (List.Subset.refl _)
  sound := h.sound
  tasks t ht := h.tasks t (hsub.subset ht)
  spawned := h.spawned
  compiled := h.compiled
  handed := h.handed

/-- A deed that is not an answer. -/
theorem tell {p : Pool} (h : p.Follows P ds) {d : Deed} (hd : ∀ who w r x w', d ≠ .answered who w r x w')
    (hcompiled : ∀ k block names, d = .compiled k block names → ∀ ctx : Context, ctx.imports = [] →
      P.Admits (P.start []) ctx block.mentions)
    (hhanded : ∀ v, d = .handed v → v.Sound P.quality) : p.Follows P (ds ++ [d]) where
  numbered := h.numbered.tellOther hd
  sound := h.sound
  tasks t ht := by
    rw [Protocol.stateOf_others (hd t.1) (Deed.begins?_eq_none fun actor w r x w' heq => absurd heq (hd actor w r x w'))]
    exact h.tasks t ht
  spawned s hs := by
    rw [Protocol.stateOf_others (hd s.1) (Deed.begins?_eq_none fun actor w r x w' heq => absurd heq (hd actor w r x w'))]
    exact h.spawned s hs
  compiled k block names hmem := by
    rcases List.mem_append.1 hmem with hmem | hmem
    · exact h.compiled k block names hmem
    · exact hcompiled k block names (List.mem_singleton.1 hmem).symm
  handed v hmem := by
    rcases List.mem_append.1 hmem with hmem | hmem
    · exact h.handed v hmem
    · exact hhanded v (List.mem_singleton.1 hmem).symm

/-- A machine on which nothing was done follows every protocol. -/
theorem create (P : Protocol) (files : FileTree) (source : ModuleSource) : Pool.Follows P [] ⟨[], .create files source⟩ where
  numbered := ⟨List.nodup_nil, List.forall_mem_nil _, fun _ _ _ _ _ hd => absurd hd List.not_mem_nil,
    fun _ _ _ hd => absurd hd List.not_mem_nil⟩
  sound := .create files source
  tasks := List.forall_mem_nil _
  spawned := List.forall_mem_nil _
  compiled _ _ _ hd := absurd hd List.not_mem_nil
  handed _ hd := absurd hd List.not_mem_nil

/-- A request of one of the tasks is answered: the task moves on, and the others stay where they are. -/
theorem answer {before after : List (TaskId × Task Outcome)} {who : TaskId} {r : Request} {next : r.Response → Task Outcome}
    (h : Pool.Follows P ds ⟨before ++ (who, .request r next) :: after, w⟩) {x : r.Response} {w' : World}
    (hx : w.perform who r = (some x, w')) (htold : P.Told r x) :
    Pool.Follows P (ds ++ [.answered who w r x w']) ⟨before ++ (who, next x) :: after, w'⟩ := by
  obtain ⟨⟨hsound, hneeds, hbegins⟩, hnext⟩ : P.Allows (P.stateOf who ds) (.request r next) :=
    h.tasks (who, .request r next) (by simp)
  have hanswer := h.sound.perform who hsound
  have hwork := w.perform_begins who r
  rw [hx] at hanswer hwork
  dsimp only at hwork
  have hstands : (who, .request r next) ∈ before ++ (who, .request r next) :: after := by simp
  have hothers : ∀ t ∈ before ++ after, t.1 ≠ who := by
    have hnodup := (List.nodup_append.1 h.numbered.nodup).1
    simp only [List.map_append, List.map_cons, List.nodup_append, List.nodup_cons] at hnodup
    intro t ht heq
    rcases List.mem_append.1 ht with ht | ht
    · exact hnodup.2.2 _ (List.mem_map_of_mem ht) _ List.mem_cons_self heq
    · exact hnodup.2.1.1 (heq ▸ List.mem_map_of_mem ht)
  -- What is there is not begun once more.
  have hbegun : ∀ id, id < w.nextTask → (Deed.answered who w r x w').begins? id = none := fun id hlt =>
    Deed.begins?_eq_none fun _ _ _ _ _ heq => by
      cases heq
      exact Nat.ne_of_gt hlt
  have hsame : ∀ id, id < w.nextTask → id ≠ who → P.stateOf id (ds ++ [.answered who w r x w']) = P.stateOf id ds :=
    fun id hlt hne =>
    Protocol.stateOf_others (fun _ _ _ _ heq => by cases heq; exact hne rfl) (hbegun id hlt)
  have hnumbered : Pool.Numbered (ds ++ [.answered who w r x w']) ⟨before ++ (who, next x) :: after, w'⟩ :=
    h.numbered.answer hstands hx (by simp)
  refine ⟨hnumbered, hanswer.1, fun t ht => ?_, fun s hs => ?_, fun k block names hmem => ?_,
    fun v hmem => ?_⟩
  · have hkept : ∀ t ∈ before ++ after, P.Allows (P.stateOf t.1 (ds ++ [.answered who w r x w'])) t.2 := by
      intro t ht
      have hmem : t ∈ before ++ (who, .request r next) :: after := by
        rcases List.mem_append.1 ht with ht | ht
        · exact List.mem_append_left _ ht
        · exact List.mem_append_right _ (List.mem_cons_of_mem _ ht)
      rw [hsame t.1 (h.numbered.standing hmem).1 (hothers t ht)]
      exact h.tasks t hmem
    rcases List.mem_append.1 ht with ht | ht
    · exact hkept t (List.mem_append_left _ ht)
    · rcases List.mem_cons.1 ht with rfl | ht
      · exact hnext x _ ⟨Protocol.stateOf_answered who ds w r x w' (hbegun who (h.numbered.standing hstands).1),
          hanswer.2 x rfl, htold⟩
      · exact hkept t (List.mem_append_right _ ht)
  · have hkept : ∀ s ∈ w.spawned, P.stateOf s.1 (ds ++ [.answered who w r x w']) = P.start s.2.ctx.imports ∧
        P.Admits (P.start s.2.ctx.imports) s.2.ctx s.2.mentions := by
      intro s hs
      have hid : s.1 ∈ w.spawned.map (·.1) := List.mem_map_of_mem hs
      rw [hsame s.1 (h.numbered.lt _ (List.mem_append_right _ hid)) fun heq => (h.numbered.standing hstands).2 (heq ▸ hid)]
      exact h.spawned s hs
    rcases hwork with ⟨-, -, hspawned⟩ | ⟨work, hwork, -, hspawned⟩
    · exact hkept s (hspawned ▸ hs)
    · rw [hspawned] at hs
      rcases List.mem_append.1 hs with hs | hs
      · exact hkept s hs
      · cases List.mem_singleton.1 hs
        exact ⟨Protocol.stateOf_begun (Deed.begins?_of_begins hwork), (hbegins work hwork).2⟩
  · rcases List.mem_append.1 hmem with hmem | hmem
    · exact h.compiled k block names hmem
    · nomatch List.mem_singleton.1 hmem
  · rcases List.mem_append.1 hmem with hmem | hmem
    · exact h.handed v hmem
    · nomatch List.mem_singleton.1 hmem

/-- What was started is taken up, each task where it starts. -/
theorem adopt {p : Pool} (h : p.Follows P ds) (hP : P.Lawful) (l : Limits) :
    (p.adopt l.evaluator.evalWork).Follows P ds where
  numbered := by
    refine h.numbered.fewer ?_ rfl (List.nil_subset _)
    simp [Pool.ids, Pool.adopt, Function.comp_def]
  sound := ⟨h.sound.store, h.sound.channels, h.sound.collectors, h.sound.jobs, h.sound.ended⟩
  tasks t ht := by
    rcases List.mem_append.1 ht with ht | ht
    · exact h.tasks t ht
    · obtain ⟨s, hs, rfl⟩ := List.mem_map.1 ht
      obtain ⟨hstart, hadmits⟩ := h.spawned s hs
      rw [hstart]
      exact hP.allows_work l hadmits
  spawned := List.forall_mem_nil _
  compiled := h.compiled
  handed := h.handed

/-- A program that resolved is started as a task. -/
theorem launch (h : Pool.Follows P ds ⟨tasks, w⟩) (hP : P.Lawful) {k : KernelId} {globals : FrameId} {block : Code.Block}
    {names : List String} (hblock : .compiled k block names ∈ ds) (l : Limits) {input : Bytes} {values : List Value}
    (hvalues : Value.AllSound P.quality values) {main : Task Outcome} {out err : CollectorId} {w' : World}
    (hlaunch : w.launch l.evaluator k globals block input values = (main, out, err, w')) :
    Pool.Follows P ds ⟨tasks ++ [(w'.nextTask, main)], { w' with nextTask := w'.nextTask + 1 }⟩ := by
  have hstarted : World.Sound P.quality (w.launch l.evaluator k globals block input values).2.2.2 := h.sound.launch hvalues
  cases hlaunch
  refine ⟨?_, ⟨hstarted.store, hstarted.channels, hstarted.collectors, hstarted.jobs, hstarted.ended⟩, fun t ht =>
    ?_, h.spawned, h.compiled, h.handed⟩
  · refine h.numbered.more ?_ rfl (List.subset_append_left _ _)
    simp only [Pool.ids, List.map_append, List.map_cons, List.map_nil, List.append_assoc]
    exact List.perm_middle
  · rcases List.mem_append.1 ht with ht | ht
    · exact h.tasks t ht
    · cases List.mem_singleton.1 ht
      rw [Protocol.stateOf_fresh (fun w₁ r x w₁' hd => Nat.lt_irrefl _ (h.numbered.acted _ w₁ r x w₁' hd).1)
        (h.numbered.begun _ (Nat.le_refl _))]
      exact hP.allows_block l (h.compiled k block names hblock _ rfl)

/-- Tasks go on, if the answers tell what the protocol counts on. -/
theorem step {p p' : Pool} {ds' : List Deed} (h : p.Follows P ds) (hP : P.Lawful) (hs : p.Step ds' p')
    (htold : ∀ who w r x w', .answered who w r x w' ∈ ds' → P.Told r x) : p'.Follows P (ds ++ ds') := by
  cases hs with
  | @answer before who r next after w x w' hx => exact h.answer hx (htold who w r x w' (List.mem_singleton_self _))
  | @wait before who r next after w w' hx =>
    rw [List.append_nil]
    have hwork := w.perform_begins who r
    obtain ⟨⟨hsound, -⟩, -⟩ : P.Allows _ (.request r next) := h.tasks (who, .request r next) (by simp)
    have hanswer := h.sound.perform who hsound
    rw [hx] at hwork hanswer
    rcases hwork with ⟨-, hnext, hspawned⟩ | ⟨work, hbegins, -, -⟩
    · exact h.congr hnext hspawned hanswer.1
    · cases r with
      | spawn | startJob => nomatch hx
      | _ => exact hbegins.elim
  | @finish before who o after w =>
    have ho : Outcome.Sound P.quality o := h.tasks (who, .ret o) (by simp)
    have hsound : (w.endTask who o).Sound P.quality := World.Sound.endTask h.sound who ho
    have hended : Pool.Follows P ds ⟨before ++ (who, .ret o) :: after, w.endTask who o⟩ := h.congr rfl rfl hsound
    have hfewer := hended.fewer ((List.sublist_cons_self (who, .ret o) after).append_left before)
    exact hfewer.tell (fun _ _ _ _ _ heq => nomatch heq) (fun _ _ _ heq => nomatch heq) fun _ heq => nomatch heq
  | @giveUp before t after w =>
    rw [List.append_nil]
    exact h.fewer ((List.sublist_cons_self t after).append_left before)
  | takeUp l =>
    rw [List.append_nil]
    exact h.adopt hP l

end Pool.Follows

/-! ## Histories -/

namespace History

variable {Supplied : List Deed → Value → Prop} {p : Pool}

/-- All tasks of a history keep to a protocol that the evaluator keeps to, if values from outside hold nothing that was
not handed out. -/
theorem follows (hP : P.Lawful)
    (hsupplied : ∀ ds v, Supplied ds v → (∀ u, .handed u ∈ ds → u.Sound P.quality) → v.Sound P.quality)
    (h : History Supplied ds p) (htold : ∀ who w r x w', .answered who w r x w' ∈ ds → P.Told r x) : p.Follows P ds := by
  have hearlier : ∀ {ds d}, (∀ who w r x w', Deed.answered who w r x w' ∈ ds ++ [d] → P.Told r x) →
      ∀ who w r x w', Deed.answered who w r x w' ∈ ds → P.Told r x :=
    fun htold who w r x w' hd => htold who w r x w' (List.mem_append_left _ hd)
  induction h with
  | create files source => exact .create P files source
  | step h hs ih =>
    exact (ih fun who w r x w' hd => htold who w r x w' (List.mem_append_left _ hd)).step hP hs
      fun who w r x w' hd => htold who w r x w' (List.mem_append_right _ hd)
  | addKernel config env h ih =>
    have hfollows := ih htold
    exact hfollows.congr rfl rfl (hfollows.sound.addKernel config env)
  | @compile ds tasks w k kernel chunk src block w' h hk hcompile ih =>
    obtain ⟨scope, hblock, rfl⟩ := compile_block hcompile
    have hfollows := ih (hearlier htold)
    have hrenamed : Pool.Follows P ds ⟨tasks, w.modifyKernel k fun kernel => { kernel with names := scope.globals }⟩ :=
      hfollows.congr rfl rfl (hfollows.sound.modifyKernel k fun _ hj => hj)
    refine hrenamed.tell (fun _ _ _ _ _ heq => nomatch heq) (fun k block names heq ctx hctx => ?_) fun _ heq => nomatch heq
    cases heq
    exact hP.program hblock hctx
  | launch l input h hblock hk hvalues hlaunch ih =>
    have hfollows := ih htold
    exact hfollows.launch hP hblock l (fun v hv => hsupplied _ v (hvalues v hv) hfollows.handed) hlaunch
  | @setVar ds tasks w k kernel v name h hk hv ih =>
    have hfollows := ih (hearlier htold)
    have hset : Pool.Follows P ds ⟨tasks, w.setVar k name v⟩ := by
      unfold World.setVar
      rw [hk]
      refine hfollows.congr rfl rfl (World.Sound.modifyKernel (hfollows.sound.withStore ?_) _ fun _ hj => hj)
      exact hfollows.sound.store.setVar _ name (hsupplied _ _ hv hfollows.handed)
    exact hset.tell (fun _ _ _ _ _ heq => nomatch heq) (fun _ _ _ heq => nomatch heq) fun _ heq => nomatch heq
  | setEnv k name text h ih =>
    have hfollows := ih htold
    exact hfollows.congr rfl rfl (hfollows.sound.modifyKernel k fun _ hj => hj)
  | handOut h hv ih =>
    have hfollows := ih (hearlier htold)
    refine hfollows.tell (fun _ _ _ _ _ heq => nomatch heq) (fun _ _ _ heq => nomatch heq) fun v heq => ?_
    cases heq
    exact hv _ hfollows.sound
  | @takeCollected ds tasks w c h ih =>
    have hfollows := ih htold
    have hquiet := World.Quiet.takeCollected w c
    exact hfollows.congr hquiet.nextTask hquiet.spawned (hfollows.sound.takeCollected c).1
  | takeEnded h ht ih =>
    have hfollows := ih htold
    have hquiet := World.Quiet.takeEnded ht
    exact hfollows.congr hquiet.nextTask hquiet.spawned (hfollows.sound.takeEnded ht).1
  | identify fresh h ih =>
    have hfollows := ih htold
    have hsound := hfollows.sound
    exact hfollows.congr rfl rfl ⟨hsound.store, hsound.channels, hsound.collectors, hsound.jobs, hsound.ended⟩
  | @clearModules ds tasks w h ih =>
    have hfollows := ih (hearlier htold)
    have hsound := hfollows.sound
    have hcleared : Pool.Follows P ds ⟨tasks, { w with modules := w.modules.clear }⟩ :=
      hfollows.congr rfl rfl ⟨hsound.store, hsound.channels, hsound.collectors, hsound.jobs, hsound.ended⟩
    exact hcleared.tell (fun _ _ _ _ _ heq => nomatch heq) (fun _ _ _ heq => nomatch heq) fun _ heq => nomatch heq

/-- A task of a history stands at a request that the protocol allows it. -/
theorem stands (hP : P.Lawful)
    (hsupplied : ∀ ds v, Supplied ds v → (∀ u, .handed u ∈ ds → u.Sound P.quality) → v.Sound P.quality)
    {before after : List (TaskId × Task Outcome)} {who : TaskId} {r : Request} {next : r.Response → Task Outcome}
    (h : History Supplied ds ⟨before ++ (who, .request r next) :: after, w⟩)
    (htold : ∀ who w r x w', .answered who w r x w' ∈ ds → P.Told r x) : P.discipline.Needs (P.stateOf who ds) r := by
  have hstands : P.Allows (P.stateOf who ds) (.request r next) :=
    (h.follows hP hsupplied htold).tasks (who, .request r next) (by simp)
  exact hstands.1

/-- Every request that was answered in a history was allowed to the task that made it. -/
theorem conforms (hP : P.Lawful)
    (hsupplied : ∀ ds v, Supplied ds v → (∀ u, .handed u ∈ ds → u.Sound P.quality) → v.Sound P.quality)
    {earlier later : List Deed} {who : TaskId} {w' : World} {r : Request} {x : r.Response}
    (h : History Supplied (earlier ++ .answered who w r x w' :: later) p)
    (htold : ∀ who w r x w', .answered who w r x w' ∈ earlier → P.Told r x) :
    P.discipline.Needs (P.stateOf who earlier) r := by
  obtain ⟨before, next, after, hearlier, -⟩ := h.asked
  exact hearlier.stands hP hsupplied htold

end History

end DualShell
