import DualShell.Proofs.Machine.History
import DualShell.Proofs.Twin.Run

/-!
# Histories keep laws

If the values that come from outside obey a law, then so does everything that programs ask for and are told, that the
machine holds, that tasks end with and that programs leave (`History.lawful`, `History.execute_left`): the evaluator is
a twin of itself, and of a twin each request brings lawful values if the answers before it did (`Task.Twin.obeys`).
-/

namespace DualShell

variable {L : Law} {α : Type}

/-! ## Code -/

/-- The same numbers, and everything may be done. -/
def Renaming.plain : Renaming where
  channel := id
  collector := id
  task := id
  channel_injective := Function.injective_id
  collector_injective := Function.injective_id
  task_injective := Function.injective_id
  pipe _ := True
  before _ := ⟨[], []⟩
  home _ := True

/-- The law that everything obeys. -/
def Law.any : Law where
  value _ := True
  failure _ := True
  string _ := trivial
  bool _ := trivial
  ok := trivial
  closure _ := trivial
  ns _ := trivial
  list := ⟨fun _ _ _ => trivial, fun _ => trivial⟩
  emptyMap := trivial
  insert _ _ _ := trivial
  remove _ _ := trivial
  parts _ _ _ := ⟨trivial, trivial⟩
  exception := Iff.rfl
  ofCause _ := trivial
  ofFlow _ := trivial
  ofReason _ := trivial
  passing _ _ := trivial
  reason _ := trivial
  causes _ _ _ := trivial

/-- Nothing is known of answers. -/
def Notes.any : Notes .any where
  noted _ _ := True
  composed _ _ _ _ := trivial
  reaped _ _ _ := trivial

/-- Code beside itself under other numbers, whatever the values. -/
abbrev Renaming.scheme (ρ : Renaming) : Scheme := ⟨ρ, .any, .any⟩

/-- Code beside itself. -/
abbrev Notes.scheme (n : Notes L) : Scheme := ⟨.plain, L, n⟩

/-- As long as answers bring lawful values, so do the requests, and `P` holds of what the task yields. -/
def Task.Obeys (n : Notes L) (P : α → Prop) : Task α → Prop
  | .ret a => P a
  | .request r next => r.Lawful L ∧ ∀ x, r.Brings L x → n.noted r x → (next x).Obeys n P
  | .exhausted => True

namespace Renaming

/-- Without a renaming every end may be written to. -/
theorem writable_plain (o : Outlet) : o.Writable plain := by
  cases o <;> trivial

/-- Without a renaming every input may be closed. -/
theorem closable_plain (i : Inlet) : i.Closable plain := by
  cases i <;> trivial

/-- Without a renaming every context may be used. -/
theorem usable_plain (ctx : Context) : ctx.Usable plain := ⟨fun _ _ o _ => writable_plain o, trivial⟩

theorem usable_work_plain (work : Work) : work.Usable plain := by
  cases work with
  | form code ctx wiring => exact ⟨usable_plain ctx, fun i _ => closable_plain i, fun o _ => writable_plain o⟩
  | job p ctx id => exact usable_plain ctx
  | gather side c k ctx => exact usable_plain ctx

theorem connection_plain (p : Connection) : p.rename plain = p := by
  obtain ⟨input, output⟩ := p
  rcases input with _ | (_ | _) <;> rcases output with _ | (_ | _ | _) <;> rfl

end Renaming

namespace Request

/-- What twins may be asked obeys the law. -/
theorem Allowed.lawful {S : Scheme} {r : Request} (h : r.Allowed S) : r.Lawful S.law := by
  cases r with
  | put => exact h.2
  | _ => first | exact h | trivial

/-- An answer that brings lawful values is one that the twin may get. -/
theorem exists_meets {n : Notes L} {r : Request} {x : r.Response} (h : r.Brings L x) (hnoted : n.noted r x) :
    ∃ x', r.Meets n.scheme x x' := by
  cases r with
  | peek | fixed | load | adopt | takeCollected | item => exact ⟨x, rfl, h⟩
  | openChannel k => exact ⟨x, rfl, trivial⟩
  | openInput data values => exact ⟨x, rfl⟩
  | openCollector => exact ⟨x, rfl, rfl⟩
  | openFile path mode => exact ⟨x, rfl, fun p _ => ⟨Renaming.connection_plain p, fun o _ => Renaming.writable_plain o⟩⟩
  | waitJob k id => exact ⟨x, rfl, h, hnoted⟩
  | spawn work => exact ⟨x, rfl, hnoted⟩
  | join id => exact ⟨x, rfl, h, hnoted⟩
  | _ => exact ⟨x, HEq.rfl⟩

end Request

/-- A twin obeys the law. -/
theorem Task.Twin.obeys {n : Notes L} {Q : Multiset TaskId → α → α → Prop} {P : α → Prop} {owed : Multiset TaskId}
    {t t' : Task α} (h : Task.Twin n.scheme Q owed t t') (hQ : ∀ owed a a', Q owed a a' → P a) : t.Obeys n P := by
  induction h with
  | ret h => exact hQ _ _ _ h
  | request hr _ ih =>
    refine ⟨hr.lawful, fun x hx hnoted => ?_⟩
    obtain ⟨x', hmeets⟩ := Request.exists_meets hx hnoted
    exact ih x x' hmeets
  | exhausted => trivial

/-- Evaluation that is its own twin without a renaming obeys the law of what it is told. -/
theorem Eval.Twin.obeys {n : Notes L} {P : α → α → Prop} {x x' : Eval α} (h : Eval.Twin n.scheme P x x') :
    x.run.Obeys n fun r => ∀ e, r = .error e → L.failure e :=
  (h 0).obeys fun _ r r' ⟨_, hr⟩ e he => by
    subst he
    cases hr with
    | error h => exact h

namespace Limits

variable (l : Limits) (n : Notes L)

/-- Evaluation at any depth is its own twin. -/
theorem twins : l.evaluator.Twins n.scheme := Evaluator.atDepth_twins l.loop l.depth

/-- A block obeys the law. -/
theorem obeys_block (b : Code.Block) (ctx : Context) : (l.evaluator.evalBlock b ctx).run.Obeys n L.outcome :=
  ((l.twins n).evalBlock (Renaming.usable_plain ctx) b).obeys

/-- The work of a task obeys the law. -/
theorem obeys_work (work : Work) : (l.evaluator.evalWork work).Obeys n L.outcome :=
  ((l.twins n).evalWork (Renaming.usable_work_plain work) 0).obeys fun _ _ _ h => h.2.2

end Limits

/-! ## Histories -/

/-- Everything that was asked for, told and left is lawful, and so is everything that the machine holds. -/
structure Lawful (L : Law) (ds : List Deed) (w : World) : Prop where
  held : w.Lawful L
  asked : ∀ {who w r x w'}, .answered who w r x w' ∈ ds → r.Lawful L ∧ r.Brings L x
  ended : ∀ {who o}, .ended who o ∈ ds → L.outcome o

/-- And all tasks go on so. -/
structure Pool.Lawful (n : TaskId → Notes L) (ds : List Deed) (p : Pool) : Prop extends DualShell.Lawful L ds p.world where
  tasks : ∀ t ∈ p.tasks, t.2.Obeys (n t.1) L.outcome

namespace Lawful

variable {ds : List Deed} {w : World}

/-- The machine holds other things. -/
theorem hold (h : Lawful L ds w) {w' : World} (hw : w'.Lawful L) : Lawful L ds w' := ⟨hw, h.asked, h.ended⟩

/-- Another deed. -/
theorem tell (h : Lawful L ds w) {d : Deed} (hasked : ∀ who w r x w', d = .answered who w r x w' → r.Lawful L ∧ r.Brings L x)
    (hended : ∀ who o, d = .ended who o → L.outcome o) : Lawful L (ds ++ [d]) w where
  held := h.held
  asked hd := (List.mem_append.1 hd).elim h.asked fun hd => hasked _ _ _ _ _ (List.mem_singleton.1 hd).symm
  ended hd := (List.mem_append.1 hd).elim h.ended fun hd => hended _ _ (List.mem_singleton.1 hd).symm

/-- A deed of no task. -/
theorem tellOutside (h : Lawful L ds w) {d : Deed} (hasked : ∀ who w r x w', d ≠ .answered who w r x w')
    (hended : ∀ who o, d ≠ .ended who o) : Lawful L (ds ++ [d]) w :=
  h.tell (fun _ _ _ _ _ hd => absurd hd (hasked _ _ _ _ _)) fun _ _ hd => absurd hd (hended _ _)

end Lawful

namespace Pool.Lawful

variable {n : TaskId → Notes L} {ds ds' : List Deed} {p p' : Pool}

/-- Tasks go on, if the answers they get are as noted. -/
theorem step (h : p.Lawful n ds) (hs : p.Step ds' p')
    (hnoted : ∀ who w r x w', .answered who w r x w' ∈ ds' → (n who).noted r x) :
    p'.Lawful n (ds ++ ds') := by
  cases hs with
  | @answer before who r next after w x w' hx =>
    obtain ⟨hr, hnext⟩ : Task.Obeys (n who) L.outcome (.request r next) := h.tasks (who, .request r next) (by simp)
    have hanswer := h.held.perform who hr
    rw [hx] at hanswer
    have hbrings : r.Brings L x := hanswer.2 x rfl
    refine ⟨(h.toLawful.hold hanswer.1).tell (fun _ _ _ _ _ hd => ?_) fun _ _ hd => (nomatch hd), fun t ht => ?_⟩
    · cases hd
      exact ⟨hr, hbrings⟩
    · simp only [List.mem_append, List.mem_cons] at ht
      rcases ht with ht | rfl | ht
      · exact h.tasks t (by simp [ht])
      · exact hnext x hbrings (hnoted who w r x w' (List.mem_singleton_self _))
      · exact h.tasks t (by simp [ht])
  | @wait before who r next after w w' hx =>
    rw [List.append_nil]
    have hanswer := h.held.perform who (h.tasks (who, .request r next) (by simp)).1
    rw [hx] at hanswer
    exact ⟨h.toLawful.hold hanswer.1, h.tasks⟩
  | @finish before who o after w =>
    have ho : L.outcome o := h.tasks (who, .ret o) (by simp)
    refine ⟨(h.toLawful.hold (h.held.endTask who ho)).tell (fun _ _ _ _ _ hd => (nomatch hd)) fun _ _ hd => ?_,
      fun t ht => h.tasks t ?_⟩
    · cases hd
      exact ho
    · simp only [List.mem_append, List.mem_cons] at ht ⊢
      exact ht.imp_right .inr
  | giveUp =>
    rw [List.append_nil]
    refine ⟨h.toLawful, fun t ht => h.tasks t ?_⟩
    simp only [List.mem_append, List.mem_cons] at ht ⊢
    exact ht.imp_right .inr
  | takeUp l =>
    rw [List.append_nil]
    have hheld := h.held
    refine ⟨h.toLawful.hold ⟨hheld.cells, hheld.channels, hheld.collectors, hheld.jobs, hheld.ended⟩, fun t ht => ?_⟩
    rcases List.mem_append.1 ht with ht | ht
    · exact h.tasks t ht
    · obtain ⟨s, -, rfl⟩ := List.mem_map.1 ht
      exact l.obeys_work (n s.1) s.2

end Pool.Lawful

/-- What a run left when its task ended. -/
def RunResult.LeftIn (r : RunResult) (w : World) : Prop :=
  ∃ id out err o w', w.takeEnded id = some (o, w') ∧
    r = .ofOutput (w'.takeCollected out).1.1 ((w'.takeCollected out).2.takeCollected err).1.1 (w'.takeCollected out).1.2 o

/-- What a job came to that is kept on a lawful machine is lawful. -/
theorem World.Lawful.result {w : World} (h : w.Lawful L) {r : RunResult} (hr : r.LeftIn w) : L.result r := by
  obtain ⟨id, out, err, o, w', hended, rfl⟩ := hr
  obtain ⟨hw', ho⟩ := h.takeEnded hended
  exact L.result_ofOutput (hw'.takeCollected out).2 ho

namespace History

variable {Supplied : List Deed → Value → Prop} {ds : List Deed} {p : Pool} {w : World}

/-- In a history whose supplied values are lawful, everything is. -/
theorem lawful (h : History Supplied ds p) (n : TaskId → Notes L)
    (hsupplied : ∀ ds' v, ds' ⊆ ds → Supplied ds' v → L.value v)
    (hnoted : ∀ who w r x w', .answered who w r x w' ∈ ds → (n who).noted r x) : p.Lawful n ds := by
  induction h with
  | create files source =>
    exact ⟨⟨.create files source, fun h => absurd h List.not_mem_nil, fun h => absurd h List.not_mem_nil⟩,
      List.forall_mem_nil _⟩
  | step h hs ih =>
    exact (ih (fun ds' v hds => hsupplied ds' v (List.subset_append_of_subset_left _ hds))
      fun who w r x w' hd => hnoted who w r x w' (List.mem_append_left _ hd)).step hs
      fun who w r x w' hd => hnoted who w r x w' (List.mem_append_right _ hd)
  | addKernel config env h ih =>
    have hp := ih hsupplied hnoted
    exact ⟨hp.toLawful.hold (hp.held.addKernel config env), hp.tasks⟩
  | @compile ds tasks w k kernel chunk src block w' h hk hcompile ih =>
    obtain ⟨scope, -, rfl⟩ := compile_block hcompile
    have hp := ih (fun ds' v hds => hsupplied ds' v (List.subset_append_of_subset_left _ hds))
      fun who w r x w' hd => hnoted who w r x w' (List.mem_append_left _ hd)
    have hnamed : World.Lawful L (w.modifyKernel k fun kernel => { kernel with names := scope.globals }) :=
      hp.held.modifyKernel k fun _ hj => hj
    exact ⟨(hp.toLawful.hold hnamed).tellOutside (fun _ _ _ _ _ hd => (nomatch hd)) fun _ _ hd => (nomatch hd), hp.tasks⟩
  | @launch ds tasks w k block names kernel values main out err w' l input h hblock hk hvalues hlaunch ih =>
    have hp := ih hsupplied hnoted
    have hstarted : World.Lawful L (w.launch l.evaluator k kernel.globals block input values).2.2.2 :=
      hp.held.launch fun v hv => hsupplied _ v (List.Subset.refl _) (hvalues v hv)
    have hmain : main = (w.launch l.evaluator k kernel.globals block input values).1 := by rw [hlaunch]
    rw [hlaunch] at hstarted
    refine ⟨hp.toLawful.hold ⟨hstarted.cells, hstarted.channels, hstarted.collectors, hstarted.jobs, hstarted.ended⟩,
      List.forall_mem_append.2 ⟨hp.tasks, List.forall_mem_singleton.2 ?_⟩⟩
    rw [hmain]
    exact l.obeys_block _ _ _
  | @setVar ds tasks w k kernel v name h hk hv ih =>
    have hp := ih (fun ds' v hds => hsupplied ds' v (List.subset_append_of_subset_left _ hds))
      fun who w r x w' hd => hnoted who w r x w' (List.mem_append_left _ hd)
    have hset := hp.held.setVar k name (hsupplied _ v (List.subset_append_left _ _) hv)
    exact ⟨(hp.toLawful.hold hset).tellOutside (fun _ _ _ _ _ hd => (nomatch hd)) fun _ _ hd => (nomatch hd), hp.tasks⟩
  | setEnv k name text h ih =>
    have hp := ih hsupplied hnoted
    exact ⟨hp.toLawful.hold (hp.held.modifyKernel k fun _ hj => hj), hp.tasks⟩
  | handOut h hv ih =>
    have hp := ih (fun ds' v hds => hsupplied ds' v (List.subset_append_of_subset_left _ hds))
      fun who w r x w' hd => hnoted who w r x w' (List.mem_append_left _ hd)
    exact ⟨hp.toLawful.tellOutside (fun _ _ _ _ _ hd => (nomatch hd)) fun _ _ hd => (nomatch hd), hp.tasks⟩
  | takeCollected c h ih =>
    have hp := ih hsupplied hnoted
    exact ⟨hp.toLawful.hold (hp.held.takeCollected c).1, hp.tasks⟩
  | takeEnded h ht ih =>
    have hp := ih hsupplied hnoted
    exact ⟨hp.toLawful.hold (hp.held.takeEnded ht).1, hp.tasks⟩
  | identify fresh h ih =>
    have hp := ih hsupplied hnoted
    have hheld := hp.held
    exact ⟨hp.toLawful.hold ⟨hheld.cells, hheld.channels, hheld.collectors, hheld.jobs, hheld.ended⟩, hp.tasks⟩
  | @clearModules ds tasks w h ih =>
    have hp := ih (fun ds' v hds => hsupplied ds' v (List.subset_append_of_subset_left _ hds))
      fun who w r x w' hd => hnoted who w r x w' (List.mem_append_left _ hd)
    have hheld := hp.held
    have hcleared : World.Lawful L { w with modules := w.modules.clear } :=
      ⟨hheld.cells, hheld.channels, hheld.collectors, hheld.jobs, hheld.ended⟩
    exact ⟨(hp.toLawful.hold hcleared).tellOutside (fun _ _ _ _ _ hd => (nomatch hd)) fun _ _ hd => (nomatch hd), hp.tasks⟩

/-- The execution of a program is part of a history, and its result was left in the course of it. -/
theorem execute_left {values : List Value} (h : History Supplied ds ⟨[], w⟩) (l : Limits) (k : KernelId)
    (chunk : Source.Chunk) (src : String) (input : Bytes) (hvalues : ∀ v ∈ values, ∀ ds', Supplied (ds ++ ds') v) :
    ∃ ds', History Supplied (ds ++ ds') ⟨[], (w.executeWithin l k chunk src input values).2⟩ ∧
      ∀ r, (w.executeWithin l k chunk src input values).1 = .ran r → ∃ w', History Supplied (ds ++ ds') ⟨[], w'⟩ ∧
      r.LeftIn w' := by
  rcases hcompile : w.compile k chunk src with ⟨compiled, w₁⟩
  unfold World.executeWithin
  rw [hcompile]
  cases compiled with
  | error e => exact ⟨[], by simpa [compile_same hcompile (.inr ⟨e, rfl⟩)] using h, fun _ hr => by cases hr⟩
  | ok block =>
    cases hk : w.kernel? k with
    | none =>
      have hsame := compile_same hcompile (.inl hk)
      exact ⟨[], by simpa [hsame, World.runBlock, hk] using h, fun r hr => by simp [hsame, World.runBlock, hk] at hr⟩
    | some kernel =>
      have hcompiled := h.compile hk hcompile
      dsimp only
      unfold World.runBlock
      split
      · exact ⟨_, hcompiled, fun _ hr => by cases hr⟩
      · rename_i kernel' hk'
        rcases hlaunch : w₁.launch l.evaluator k kernel'.globals block input values with ⟨main, out, err, w₂⟩
        have hstart := hcompiled.launch l input (List.mem_append_right _ (List.mem_singleton_self _)) hk'
          (fun v hv => hvalues v hv _) hlaunch
        have hgoes := Pool.Goes.run l l.requests l.rounds ⟨[(w₂.nextTask, main)], { w₂ with nextTask := w₂.nextTask + 1 }⟩
        have hrun := hstart.goesOut hgoes
        rw [List.append_assoc] at hrun
        simp only [Limits.run]
        generalize Pool.run l.evaluator.evalWork l.requests l.rounds _ = pool at hrun ⊢
        cases hended : pool.world.takeEnded w₂.nextTask with
        | none => exact ⟨_, hrun, fun _ hr => by cases hr⟩
        | some ended =>
          refine ⟨_, ((hrun.takeEnded hended).takeCollected out).takeCollected err, fun r hr => ⟨_, hrun, ?_⟩⟩
          cases hr
          exact ⟨_, out, err, ended.1, ended.2, hended, rfl⟩

end History

end DualShell
