import DualShell.Proofs.Machine.Through
import DualShell.Proofs.Scope.Change
import DualShell.Proofs.Scope.History
import DualShell.Proofs.Scope.Restore

/-!
# Temporary assignments

A form with temporary assignments sets variables one after the other, each when its turn comes, and remembers what each
of them held (`Evaluator.SetUp`). However setting up or the body comes out, the variables are put back, so each holds
what it held when its first turn came, others are left alone, and nothing of this can be told from the outcome
(`Evaluator.temporaries_undone`). What a variable holds at its first turn is what it held before the form, unless
evaluating the redirections and the values of the form changes it (`Undone.returned`, `Evaluator.changed_before_turn`).
-/

namespace DualShell

open Eval Compile

/-! ## Resolved forms -/

section Resolved

variable {src : String} {span : Span}

/-- Targets take the rest where they are written so. -/
theorem compileTargets_rest : (ts : List Source.Target) → ∀ {s t : Scope} {out : List Code.Target},
    (compileTargets src span ts).run.run s = (.ok out, t) → out.map (·.rest) = ts.map (·.rest)
  | [], s, t, out, h => by
    cases h
    rfl
  | ⟨name, [], rest⟩ :: ts, s, t, out, h => by
    unfold compileTargets at h
    obtain ⟨ref, s₁, -, h⟩ := run_bind_ok h
    obtain ⟨more, s₂, hmore, h⟩ := run_bind_ok h
    cases h
    exact congrArg (rest :: ·) (compileTargets_rest ts hmore)
  | ⟨name, i :: is, rest⟩ :: ts, s, t, out, h => by
    unfold compileTargets at h
    obtain ⟨ref, s₁, -, h⟩ := run_bind_ok h
    obtain ⟨-, s₂, -, h⟩ := run_bind_ok h
    obtain ⟨-, s₃, -, h⟩ := run_bind_ok h
    obtain ⟨indices, s₄, -, h⟩ := run_bind_ok h
    obtain ⟨more, s₅, hmore, h⟩ := run_bind_ok h
    cases h
    exact congrArg (rest :: ·) (compileTargets_rest ts hmore)

/-- Temporaries do not collect the rest. -/
theorem compileTemps_rest : (as : List Source.Assignment) → ∀ {s t : Scope} {ops : List Code.Assign},
    (compileTemps src span as).run.run s = (.ok ops, t) → ∀ op ∈ ops, ∀ target ∈ op.targets, target.rest = false
  | [], s, t, ops, h => by
    cases h
    exact fun op hop => nomatch hop
  | ⟨targets, values⟩ :: as, s, t, ops, h => by
    unfold compileTemps at h
    obtain ⟨⟨⟩, s₁, hcheck, h⟩ := run_bind_ok h
    obtain ⟨op, s₂, hop, h⟩ := run_bind_ok h
    obtain ⟨more, s₃, hmore, h⟩ := run_bind_ok h
    cases h
    refine List.forall_mem_cons.2 ⟨fun target htarget => ?_, compileTemps_rest as hmore⟩
    obtain ⟨-, ⟨-, hplain⟩, -⟩ := checkTemporary_notes (A := changed) span targets s () s₁ trivial hcheck
    unfold compileAssign at hop
    obtain ⟨vs, s₄, -, hop⟩ := run_bind_ok hop
    obtain ⟨-, s₅, -, hop⟩ := run_bind_ok hop
    obtain ⟨ts, s₆, hts, hop⟩ := run_bind_ok hop
    cases hop
    have hrest : target.rest ∈ targets.map (·.rest) := compileTargets_rest targets hts ▸ List.mem_map_of_mem htarget
    obtain ⟨source, hsource, heq⟩ := List.mem_map.1 hrest
    exact heq.symm.trans (hplain source hsource).1

/-- Targets are changed that are mentioned. -/
theorem change_mem_targets {ts : List Code.Target} {target : Code.Target} (h : target ∈ ts) :
    .change target.ref ∈ Code.targetsMentions ts := by
  induction ts with
  | nil => nomatch h
  | cons t ts ih =>
    obtain ⟨ref, indices, rest⟩ := t
    unfold Code.targetsMentions
    rcases List.mem_cons.1 h with rfl | h
    · simp [Ref.changeMentions]
    · exact List.mem_append_right _ (ih h)

/-- Targets of assignments are changed that are mentioned. -/
theorem change_mem_assigns {ops : List Code.Assign} {op : Code.Assign} (h : op ∈ ops) {target : Code.Target}
    (htarget : target ∈ op.targets) : .change target.ref ∈ Code.assignsMentions ops := by
  induction ops with
  | nil => nomatch h
  | cons o ops ih =>
    unfold Code.assignsMentions
    rcases List.mem_cons.1 h with rfl | h
    · obtain ⟨targets, values⟩ := op
      refine List.mem_append_left _ ?_
      unfold Code.Assign.mentions
      exact List.mem_append_right _ (change_mem_targets htarget)
    · exact List.mem_append_right _ (ih h)

/-- The temporaries of a form are variables that can be written, one value each. -/
theorem compileForm_temps {source : Source.Form} {form : Code.Form} {s t : Scope}
    (h : (compileForm src source).run.run s = (.ok form, t)) :
    ∀ op ∈ form.temps, ∀ target ∈ op.targets, target.rest = false ∧ target.ref.isWritable = true := by
  obtain ⟨ms, rfl, hallowed⟩ := compileForm_writes src changed_byMention source s form t trivial h
  obtain ⟨temps, body, redirs, place⟩ := source
  unfold compileForm at h
  obtain ⟨redirs', s₁, -, h⟩ := run_bind_ok h
  obtain ⟨temps', s₂, htemps, h⟩ := run_bind_ok h
  obtain ⟨action, s₃, -, h⟩ := run_bind_ok h
  cases h
  intro op hop target htarget
  refine ⟨compileTemps_rest temps htemps op hop target htarget, hallowed _ (.here ?_)⟩
  unfold Code.Form.mentions
  have := change_mem_assigns hop htarget
  simp [this]

end Resolved

/-! ## A task in a history -/

/-- A machine whose store extends that of another one covers it. -/
theorem World.Covers.of_extends {w w' : World} (h : w.store.Extends w'.store) (htops : w'.tops = w.tops) : w.Covers w' := by
  have hsize := congrArg Array.size htops
  simp only [World.tops, Array.size_map] at hsize
  exact ⟨h.frames, h.cells, hsize ▸ Nat.le_refl _⟩

namespace History

variable {ds ds' : List Deed} {p p' : Pool}

/-- A step of the machine covers what was there. -/
theorem step_covers (h : History Made ds p) (hs : p.Step ds' p') : p.world.Covers p'.world := by
  obtain ⟨G, hG⟩ := History.fits True (fun _ _ hv _ => hv) h
  obtain ⟨-, -, hextends, -⟩ := hG.step hs
  refine .of_extends hextends ?_
  cases hs with
  | @answer before who r next after w x w' hx =>
    obtain ⟨hneeds, -⟩ : G.Allows True (.request r next) := hG.tasks (who, .request r next) (by simp)
    obtain ⟨-, -, -, htops, -⟩ := hG.world.perform who hneeds hx
    exact htops
  | @wait before who r next after w w' hx =>
    obtain ⟨hneeds, -⟩ : G.Allows True (.request r next) := hG.tasks (who, .request r next) (by simp)
    exact (hG.world.wait who hneeds hx).2
  | finish | giveUp | takeUp => rfl

/-- Nothing of the machine is lost while tasks go on. -/
theorem goes_covers (h : History Made ds p) (hgoes : p.Goes ds' p') : p.world.Covers p'.world := by
  induction hgoes generalizing ds with
  | refl p => exact .refl _
  | step hs _ ih => exact (h.step_covers hs).trans (ih (h.step hs))

end History

namespace Site

variable {α : Type} {s s' : Site} {who : TaskId} {t : Task α} {k : α → Task Outcome} {a : α}

/-- A task may stand at some work in the course of a history. -/
def Live (s : Site) (who : TaskId) (t : Task Outcome) : Prop := ∃ ds, History Made ds (s.pool who t)

/-- A task in a history fits the frames that there are. -/
theorem Live.fits {t : Task Outcome} (h : s.Live who t) :
    ∃ (G : Layout) (gone : FrameId → String → Prop), s.world.store.Fits G gone ∧ G.Allows True t := by
  obtain ⟨ds, h⟩ := h
  obtain ⟨G, hG⟩ := History.fits True (fun _ _ hv _ => hv) h
  exact ⟨G, _, hG.world.store, hG.tasks (who, t) (by simp [pool])⟩

/-- The request that the task stands at is in place. -/
theorem Live.needs {r : Request} {next : r.Response → Task Outcome} (h : s.Live who (.request r next)) :
    ∃ (G : Layout) (gone : FrameId → String → Prop), s.world.store.Fits G gone ∧ G.Needs True r := by
  obtain ⟨G, gone, hstore, hallows⟩ := h.fits
  exact ⟨G, gone, hstore, hallows.1⟩

/-- Kernels have their frames. -/
theorem Live.rooted {t : Task Outcome} (h : s.Live who t) : s.world.Rooted := by
  obtain ⟨G, gone, hstore, -⟩ := h.fits
  exact fun hc => hstore.cells (hstore.slot hc)

/-- A task that went through a part of its work goes on with the rest. -/
theorem Live.after (h : s.Live who (t.bind k)) (ht : t.Through who k s a s') : s'.Live who (k a) := by
  obtain ⟨ds, h⟩ := h
  obtain ⟨ds', hgoes⟩ := ht.goes
  exact ⟨ds ++ ds', h.goes hgoes⟩

/-- While a task goes through a part of its work, what was there is covered. -/
theorem Live.covers (h : s.Live who (t.bind k)) (ht : t.Through who k s a s') : s.world.Covers s'.world := by
  obtain ⟨ds, h⟩ := h
  obtain ⟨ds', hgoes⟩ := ht.goes
  exact h.goes_covers hgoes

/-- What a request for a cell that was taken along needs. -/
theorem Live.taken {ctx : Context} {name : String} {level : Nat} {access : Access} {next : Option CellId → Task Outcome}
    (h : s.Live who (.request (.taken ctx.frame ctx.captures name level access) next)) :
    s.world.Reaches ctx (@Ref.captured level name) := by
  obtain ⟨G, gone, hstore, hneeds⟩ := h.needs
  obtain ⟨-, c, g, hc, -, hslot⟩ := hneeds trivial
  exact ⟨c, hc, hstore.cells hslot⟩

/-- A task that looks at a variable that was taken along reaches it. -/
theorem Live.reaches_peek {ctx : Context} {ref : Ref} {k : Except Exception (Option Value) → Task Outcome}
    (h : s.Live who (Task.bind (ref.peek ctx).run k)) {level : Nat} {name : String} (href : ref = @Ref.captured level name) :
    s.world.Reaches ctx ref := by
  subst href
  unfold Ref.peek Ref.read Ref.cell at h
  exact Live.taken h

/-- A task that looks for the cell of a variable reaches it. -/
theorem Live.reaches_cell {β : Type} {ctx : Context} {ref : Ref} {access : Access} {f : CellId → Eval β}
    {k : Except Exception β → Task Outcome} (h : s.Live who (Task.bind (ref.cell ctx access >>= f).run k))
    (hwritable : ref.isWritable = true) (henv : ∀ name, ref ≠ .env name) : s.world.Reaches ctx ref := by
  cases ref with
  | «local» name =>
    unfold Ref.cell at h
    obtain ⟨G, gone, hstore, hneeds⟩ := Live.needs (r := .cell ctx.frame name access) h
    exact hstore.frames (show G.binds ctx.frame name from hneeds)
  | captured name =>
    unfold Ref.cell at h
    exact Live.taken h
  | env name => exact absurd rfl (henv name)
  | builtin | member => nomatch hwritable

/-- A task that writes a variable reaches it. -/
theorem Live.reaches_write {ctx : Context} {ref : Ref} {v : Value} {k : Except Exception Unit → Task Outcome}
    (h : s.Live who (Task.bind (ref.write ctx v).run k)) (hwritable : ref.isWritable = true) : s.world.Reaches ctx ref := by
  cases ref with
  | «local» | captured =>
    unfold Ref.write at h
    exact h.reaches_cell hwritable fun _ => Ref.noConfusion
  | env name => trivial
  | builtin | member => nomatch hwritable

theorem Live.bind {β : Type} {f : α → Task β} {k : β → Task Outcome} (h : s.Live who (Task.bind (Task.bind t f) k)) :
    s.Live who (t.bind fun a => (f a).bind k) := by
  rwa [Task.bind_assoc] at h

theorem Live.eval_bind {β : Type} {x : Eval α} {f : α → Eval β} {k : Except Exception β → Task Outcome}
    (h : s.Live who (Task.bind (x >>= f).run k)) :
    s.Live who (Task.bind x.run fun r => Task.bind (ExceptT.bindCont f r) k) :=
  Live.bind h

theorem Live.lift_bind {β : Type} {f : α → Eval β} {k : Except Exception β → Task Outcome}
    (h : s.Live who (Task.bind (ExceptT.lift t >>= f).run k)) : s.Live who (t.bind fun a => Task.bind (f a).run k) := by
  rw [run_lift_bind] at h
  exact h.bind

end Site

namespace Sample

/-- The task of a program at its start, and the machine. -/
def started (w : World) (block : Code.Block) : Task Outcome × World :=
  let (main, _, _, w) := w.launch limits.evaluator 0 0 block [] []
  (main, { w with nextTask := w.nextTask + 1 })

/-- A program may stand at its start. -/
theorem started_live {chunk : Source.Chunk} {block : Code.Block} {w : World}
    (hcompile : machine.compile 0 chunk "" = (.ok block, w)) (hkernel : (w.kernel? 0).map (·.globals) = some 0) :
    (⟨[], [], (started w block).2⟩ : Site).Live w.nextTask ((started w block).1.bind .ret) := by
  obtain ⟨kernel, hkernel, hglobals⟩ := Option.map_eq_some_iff.1 hkernel
  have hlaunch : w.launch limits.evaluator 0 kernel.globals block [] [] = w.launch limits.evaluator 0 0 block [] [] := by
    rw [hglobals]
  have hhistory :=
    ((start Made).compile rfl hcompile).launch limits [] (List.mem_singleton_self _) hkernel (List.forall_mem_nil _) hlaunch
  rw [Task.bind_ret]
  exact ⟨_, hhistory⟩

/-- A program of one form. -/
def program (action : Code.Action) (text : String) : Code.Block :=
  ⟨[⟨[⟨[], action, [], ⟨"", ⟨0, 0⟩⟩⟩], false, ⟨"", ⟨0, 0⟩⟩, text⟩]⟩

/-- A program of one form is that form, and what comes after it. -/
theorem started_main (w : World) (action : Code.Action) (text : String) : ∃ ctx k, ctx.kernel = 0 ∧
    (started w (program action text)).1 = Task.bind ((Evaluator.atDepth 10 29).evalAction action ctx).run k := by
  let launched := w.launch limits.evaluator 0 0 (program action text) [] []
  let input := (w.addChannel (.closedWith [] [])).1
  let ctx : Context := ⟨0, 0, [], .standard (.channel input) (.collector launched.2.1) (.collector launched.2.2.1), []⟩
  have hform : (started w (program action text)).1 =
      Task.bind ((Evaluator.atDepth 10 29).evalForm ⟨[], action, [], ⟨"", ⟨0, 0⟩⟩⟩ ctx .loose).run
      (ExceptT.bindCont fun _ => pure ()) := rfl
  obtain ⟨k, haction⟩ : ∃ k : Except Exception Outcome → Task Outcome,
    ((Evaluator.atDepth 10 29).evalForm ⟨[], action, [], ⟨"", ⟨0, 0⟩⟩⟩ ctx .loose).run =
      Task.bind (Task.bind ((Evaluator.atDepth 10 29).evalAction action ctx).run fun r => .ret (.ok r)) k := ⟨_, rfl⟩
  exact ⟨ctx, _, rfl, by rw [hform, haction, Task.bind_assoc, Task.bind_assoc]⟩

/-- A program of one form that ends goes through what the form does. -/
theorem goes_through {chunk : Source.Chunk} {action : Code.Action} {text : String} {w : World} {o : Outcome}
    (hcompile : machine.compile 0 chunk "" = (.ok (program action text), w))
    (hkernel : (w.kernel? 0).map (·.globals) = some 0)
    (hrun : ((started w (program action text)).1.run w.nextTask 100 false (started w (program action text)).2).1 =
      .ended o) :
    ∃ (ctx : Context) (s s' : Site) (o : Outcome) (k : Outcome → Task Outcome), (s.world.kernel? ctx.kernel).isSome ∧
      s.Live w.nextTask (Task.bind ((Evaluator.atDepth 10 29).evalAction action ctx).run k) ∧
      ((Evaluator.atDepth 10 29).evalAction action ctx).Through w.nextTask k s o s' := by
  obtain ⟨ctx, k, hctx, hmain⟩ := started_main w action text
  have hlive := started_live hcompile hkernel
  have hthrough := Task.Through.of_turn [] [] (Prod.ext hrun rfl)
  rw [hmain] at hlive hthrough
  obtain ⟨o, s', hthrough, -⟩ := Task.through_bind.1 hthrough
  refine ⟨ctx, _, s', o, _, ?_, hlive.bind, hthrough⟩
  have hkept : (started w (program action text)).2.kernel? 0 = w.kernel? 0 := rfl
  have hsome : (w.kernel? 0).isSome := by
    obtain ⟨kernel, hk, -⟩ := Option.map_eq_some_iff.1 hkernel
    rw [hk]
    rfl
  rw [hctx]
  exact hkept ▸ hsome

end Sample

/-! ## Setting up -/

/-- A variable that was set for a while, and the machine when its turn came. -/
structure Setting where
  ref : Ref
  world : World

namespace Setting

/-- What is saved of the variable. -/
def saved (ctx : Context) (t : Setting) : Saved := (t.ref, t.world.value? ctx t.ref)

/-- What the variable held; the empty string if it was never set. -/
def held (ctx : Context) (t : Setting) : Value := t.world.reads ctx t.ref

end Setting

/-- Variables are set one after the other, while nobody else moves: those whose turn came. -/
inductive Sets (who : TaskId) (ctx : Context) : List (Code.Target × Value) → Site → List Setting → Outcome → Site → Prop
  | done (s : Site) : Sets who ctx [] s [] (.ok ()) s
  /-- The value cannot be given to the variable. -/
  | failed {target : Code.Target} {v : Value} {rest : List (Code.Target × Value)} {s : Site} {ex : Exception}
      (h : (target.ref.write ctx v).Passes who s (.error ex) s) :
      Sets who ctx ((target, v) :: rest) s [⟨target.ref, s.world⟩] (.error ex) s
  | next {target : Code.Target} {v : Value} {rest : List (Code.Target × Value)} {s s' : Site} {w : World}
      {settings : List Setting} {o : Outcome}
      (h : (target.ref.write ctx v).Passes who s (.ok ()) (s.on w)) (hspares : s.world.Spares ctx [target.ref] w)
      (hrest : Sets who ctx rest (s.on w) settings o s') :
      Sets who ctx ((target, v) :: rest) s (⟨target.ref, s.world⟩ :: settings) o s'

/-- A variable holds what it held until its turn comes, and after all of them if it has none. -/
structure Kept (ctx : Context) (settings : List Setting) (w w' : World) (ref : Ref) : Prop where
  first : ∀ {earlier setting later}, settings = earlier ++ setting :: later →
    (∀ t ∈ earlier, ¬t.world.Same ctx t.ref ref) → setting.ref = ref → setting.world.value? ctx ref = w.value? ctx ref
  none : (∀ t ∈ settings, ¬t.world.Same ctx t.ref ref) → w'.value? ctx ref = w.value? ctx ref

namespace Kept

variable {ctx : Context} {settings settings' : List Setting} {w w' w'' : World} {ref : Ref}

/-- If nothing was set, a variable that holds what it held is kept. -/
theorem nil (h : w'.value? ctx ref = w.value? ctx ref) : Kept ctx [] w w' ref := ⟨fun h => by simp at h, fun _ => h⟩

/-- If one variable was set, any that is not the same is kept. -/
theorem single {r : Ref} (h : ¬w.Same ctx r ref → w'.value? ctx ref = w.value? ctx ref) : Kept ctx [⟨r, w⟩] w w' ref := by
  refine ⟨fun {earlier setting later} heq _ _ => ?_, fun hother => h (hother _ (List.mem_singleton_self _))⟩
  cases earlier with
  | nil =>
    cases heq
    rfl
  | cons t earlier => simp at heq

/-- Settings one after another keep what both keep. -/
theorem append (h : Kept ctx settings w w' ref) (h' : Kept ctx settings' w' w'' ref) :
    Kept ctx (settings ++ settings') w w'' ref := by
  refine ⟨fun {earlier setting later} heq hother href => ?_, fun hother => ?_⟩
  · obtain ⟨rest, rfl, hrest⟩ | ⟨rest, hrest, hlater⟩ := List.append_eq_append_iff.1 heq
    · rw [h'.first hrest (fun t ht => hother t (List.mem_append_right _ ht)) href]
      exact h.none fun t ht => hother t (List.mem_append_left _ ht)
    · cases rest with
      | nil =>
        obtain rfl : settings = earlier := by simpa using hrest
        have hhead : settings' = [] ++ setting :: later := hlater.symm
        rw [h'.first hhead (List.forall_mem_nil _) href]
        exact h.none hother
      | cons t rest =>
        obtain ⟨rfl, rfl⟩ := List.cons.inj hlater
        exact h.first hrest hother href
  · rw [h'.none fun t ht => hother t (List.mem_append_right _ ht)]
    exact h.none fun t ht => hother t (List.mem_append_left _ ht)

end Kept

section

variable {who : TaskId} {ctx : Context}

/-- Variables that can be written are set in order, as far as their values allow. -/
theorem setAside_through : (pairs : List (Code.Target × Value)) → ∀ {saved saved' : List Saved} {o : Outcome} {s s' : Site}
    {k : List Saved × Outcome → Task Outcome}, (∀ p ∈ pairs, p.1.ref.isWritable = true) →
    s.Live who (Task.bind (setAside ctx pairs saved) k) → (setAside ctx pairs saved).Through who k s (saved', o) s' →
    ∃ settings, saved' = (settings.map (Setting.saved ctx)).reverse ++ saved ∧ Sets who ctx pairs s settings o s' ∧
      (∀ t ∈ settings, s'.world.Settable ctx t.ref (t.held ctx)) ∧ ∀ ref, s.world.Reaches ctx ref →
      Kept ctx settings s.world s'.world ref
  | [], saved, saved', o, s, s', k, _, _, hthrough => by
    obtain ⟨heq, rfl⟩ := Task.through_ret.1 hthrough
    cases heq
    exact ⟨[], rfl, .done _, List.forall_mem_nil _, fun ref _ => .nil rfl⟩
  | (target, v) :: rest, saved, saved', o, s, s', k, hwritable, hlive, hthrough => by
    obtain ⟨htarget, hrest⟩ := List.forall_mem_cons.1 hwritable
    unfold setAside at hlive hthrough
    have hlive := hlive.bind
    obtain ⟨r, s₁, hpeek, hthrough⟩ := Task.through_bind.1 hthrough
    have hlive₁ := hlive.after hpeek
    obtain ⟨hs₁, rfl, hworld⟩ := hpeek.alone (World.peek_alone htarget hlive.reaches_peek)
    rw [hworld] at hs₁
    obtain rfl : s₁ = s := hs₁
    have hlive₁ := hlive₁.bind
    obtain ⟨r, s₂, hwrite, hthrough⟩ := Task.through_bind.1 hthrough
    have hreaches := hlive₁.reaches_write htarget
    have hrooted : s₁.world.Rooted := hlive₁.rooted
    have hlive₂ := hlive₁.after hwrite
    obtain ⟨hs₂, hspares, hr⟩ := hwrite.alone (hreaches.write hrooted v)
    have hkept : ∀ ref, s₁.world.Reaches ctx ref → Kept ctx [⟨target.ref, s₁.world⟩] s₁.world s₂.world ref := fun ref href =>
      .single fun hother => hspares.value?_eq hrooted href fun r hr => List.mem_singleton.1 hr ▸ hother
    obtain ⟨rfl, -⟩ | ⟨hsame, -, ex, rfl⟩ := hr
    · obtain ⟨settings, rfl, hsets, hsettable, hkept'⟩ := setAside_through rest hrest hlive₂ hthrough
      refine ⟨⟨target.ref, s₁.world⟩ :: settings, by simp [Setting.saved], ?_, List.forall_mem_cons.2 ⟨?_, hsettable⟩,
        fun ref href => ?_⟩
      · rw [hs₂] at hwrite hsets
        exact .next hwrite.passes hspares hsets
      · exact hreaches.settable.mono (hspares.covers.trans (hlive₂.covers hthrough))
      · exact (hkept ref href).append (hkept' ref (href.mono hspares.covers))
    · obtain ⟨heq, rfl⟩ := Task.through_ret.1 hthrough
      cases heq
      rw [hsame] at hs₂
      obtain rfl : s' = s₁ := hs₂
      exact ⟨[⟨target.ref, s'.world⟩], rfl, .failed hwrite.passes, List.forall_mem_singleton.2 hreaches.settable, hkept⟩

/-- A prefix of the variables is set, in order: all of them, unless it fails. -/
theorem Sets.refs {pairs : List (Code.Target × Value)} {s s' : Site} {settings : List Setting} {o : Outcome}
    (h : Sets who ctx pairs s settings o s') :
    settings.map (·.ref) <+: pairs.map (·.1.ref) ∧ (o = .ok () → settings.map (·.ref) = pairs.map (·.1.ref)) := by
  induction h with
  | done => exact ⟨List.prefix_rfl, fun _ => rfl⟩
  | failed => exact ⟨⟨_, rfl⟩, nofun⟩
  | next _ _ _ ih => exact ⟨(List.prefix_cons_inj _).2 ih.1, fun ho => congrArg _ (ih.2 ho)⟩

end

namespace Evaluator

variable {e : Evaluator} {who : TaskId} {ctx : Context}

/-- The temporary assignments of a form are made in order. Each is made once its values are there, one for each
variable; while they are evaluated, from one machine to another, anything may happen. -/
inductive SetUp (e : Evaluator) (who : TaskId) (ctx : Context) :
    List Code.Assign → Site → List (World × World) → List Setting → Outcome → Site → Prop
  | done (s : Site) : SetUp e who ctx [] s [] [] (.ok ()) s
  | unready {op : Code.Assign} {ops : List Code.Assign} {s s' : Site} {ex : Exception}
      (hvalues : (e.assignValues op ctx).Passes who s (.error ex) s') :
      SetUp e who ctx (op :: ops) s [(s.world, s'.world)] [] (.error ex) s'
  | failed {op : Code.Assign} {ops : List Code.Assign} {s s₁ s' : Site} {vs : List Value} {settings : List Setting}
      {ex : Exception}
      (hvalues : (e.assignValues op ctx).Passes who s (.ok vs) s₁) (hcount : vs.length = op.targets.length)
      (hsets : Sets who ctx (op.targets.zip vs) s₁ settings (.error ex) s') :
      SetUp e who ctx (op :: ops) s [(s.world, s₁.world)] settings (.error ex) s'
  | next {op : Code.Assign} {ops : List Code.Assign} {s s₁ s₂ s' : Site} {vs : List Value} {evals : List (World × World)}
      {settings settings' : List Setting} {o : Outcome}
      (hvalues : (e.assignValues op ctx).Passes who s (.ok vs) s₁) (hcount : vs.length = op.targets.length)
      (hsets : Sets who ctx (op.targets.zip vs) s₁ settings (.ok ()) s₂)
      (hrest : SetUp e who ctx ops s₂ evals settings' o s') :
      SetUp e who ctx (op :: ops) s ((s.world, s₁.world) :: evals) (settings ++ settings') o s'

/-- Targets with their values are the targets. -/
theorem zip_refs {targets : List Code.Target} {vs : List Value} (h : vs.length = targets.length) :
    (targets.zip vs).map (·.1.ref) = targets.map (·.ref) := by
  rw [show (fun p : Code.Target × Value => p.1.ref) = (·.ref) ∘ Prod.fst from rfl, ← List.map_map,
    List.map_fst_zip (Nat.le_of_eq h.symm)]

/-- The turns of a prefix of the variables come, in order: of all of them, unless setting them up fails. -/
theorem SetUp.refs {ops : List Code.Assign} {s s' : Site} {evals : List (World × World)} {settings : List Setting}
    {o : Outcome} (h : e.SetUp who ctx ops s evals settings o s') :
    settings.map (·.ref) <+: ops.flatMap (fun op => op.targets.map (·.ref)) ∧
      (o = .ok () → settings.map (·.ref) = ops.flatMap fun op => op.targets.map (·.ref)) := by
  induction h with
  | done => exact ⟨List.prefix_rfl, fun _ => rfl⟩
  | unready => exact ⟨List.nil_prefix, nofun⟩
  | failed _ hcount hsets =>
    have hrefs := hsets.refs.1
    rw [zip_refs hcount] at hrefs
    exact ⟨hrefs.trans (List.prefix_append _ _), nofun⟩
  | next _ hcount hsets _ ih =>
    have hrefs := hsets.refs.2 rfl
    rw [zip_refs hcount] at hrefs
    rw [List.map_append, hrefs, List.flatMap_cons]
    exact ⟨(List.prefix_append_right_inj _).2 ih.1, fun ho => congrArg _ (ih.2 ho)⟩

/-- Values that are there are as many as the variables, if none of these collects the rest. -/
theorem assignValues_count {op : Code.Assign} {s s' : Site} {vs : List Value}
    {k : Except Exception (List Value) → Task Outcome}
    (h : (e.assignValues op ctx).Through who k s (.ok vs) s') (hplain : ∀ target ∈ op.targets, target.rest = false) :
    vs.length = op.targets.length := by
  have hfixed : op.targets.filter (fun t => !t.rest) = op.targets := List.filter_eq_self.2 fun t ht => by simp [hplain t ht]
  have hany : op.targets.any (·.rest) = false := List.any_eq_false.2 fun t ht => by simp [hplain t ht]
  unfold assignValues at h
  obtain ⟨ex, -, heq⟩ | ⟨vs', s₁, -, h⟩ := through_bind.1 h
  · nomatch heq
  · obtain ⟨ex, -, heq⟩ | ⟨⟨⟩, s₂, hcheck, h⟩ := through_bind.1 h
    · nomatch heq
    · obtain ⟨heq, -⟩ := Task.through_ret.1 h
      cases heq
      simp only [checkArity, hfixed, hany] at hcheck
      by_cases hcount : vs.length = op.targets.length
      · exact hcount
      · rw [if_neg (by simpa using hcount)] at hcheck
        nomatch (Task.through_ret.1 hcheck).1

/-- Temporary variables are set in their order, until one cannot be. -/
theorem setTemps_through : (ops : List Code.Assign) → ∀ {saved saved' : List Saved} {o : Outcome} {s s' : Site}
    {k : List Saved × Outcome → Task Outcome},
    (∀ op ∈ ops, ∀ target ∈ op.targets, target.rest = false ∧ target.ref.isWritable = true) →
    s.Live who (Task.bind (e.setTemps ctx ops saved) k) → (e.setTemps ctx ops saved).Through who k s (saved', o) s' →
    ∃ evals settings, saved' = (settings.map (Setting.saved ctx)).reverse ++ saved ∧
    e.SetUp who ctx ops s evals settings o s' ∧
      (∀ t ∈ settings, s'.world.Settable ctx t.ref (t.held ctx)) ∧
      ∀ ref, s.world.Reaches ctx ref → (∀ x ∈ evals, x.2.value? ctx ref = x.1.value? ctx ref) →
      Kept ctx settings s.world s'.world ref
  | [], saved, saved', o, s, s', k, _, _, hthrough => by
    obtain ⟨heq, rfl⟩ := Task.through_ret.1 hthrough
    cases heq
    exact ⟨[], [], rfl, .done _, List.forall_mem_nil _, fun ref _ _ => .nil rfl⟩
  | op :: ops, saved, saved', o, s, s', k, hplain, hlive, hthrough => by
    obtain ⟨hop, hops⟩ := List.forall_mem_cons.1 hplain
    unfold setTemps at hlive hthrough
    have hlive := hlive.bind
    obtain ⟨r, s₁, hvalues, hthrough⟩ := Task.through_bind.1 hthrough
    have hlive₁ := hlive.after hvalues
    have hcovers := hlive.covers hvalues
    cases r with
    | error ex =>
      obtain ⟨heq, rfl⟩ := Task.through_ret.1 hthrough
      cases heq
      exact ⟨[(s.world, s'.world)], [], rfl, .unready hvalues.passes, List.forall_mem_nil _, fun ref _ hleft =>
        .nil (hleft _ (List.mem_singleton_self _))⟩
    | ok vs =>
      have hcount := assignValues_count hvalues fun target htarget => (hop target htarget).1
      have hwritable : ∀ p ∈ op.targets.zip vs, p.1.ref.isWritable = true := fun p hp => (hop p.1 (List.of_mem_zip hp).1).2
      have hlive₁ := hlive₁.bind
      obtain ⟨⟨saved₁, o₁⟩, s₂, hset, hthrough⟩ := Task.through_bind.1 hthrough
      have hlive₂ := hlive₁.after hset
      obtain ⟨settings, rfl, hsets, hsettable, hkept⟩ := setAside_through (op.targets.zip vs) hwritable hlive₁ hset
      have hevaluated : ∀ ref, s.world.Reaches ctx ref → s₁.world.value? ctx ref = s.world.value? ctx ref →
          Kept ctx settings s.world s₂.world ref := fun ref hreaches hleft =>
        (Kept.nil hleft).append (hkept ref (hreaches.mono hcovers))
      cases o₁ with
      | error ex =>
        obtain ⟨heq, rfl⟩ := Task.through_ret.1 hthrough
        cases heq
        exact ⟨[(s.world, s₁.world)], settings, rfl, .failed hvalues.passes hcount hsets, hsettable,
          fun ref hreaches hleft =>
          hevaluated ref hreaches (hleft _ (List.mem_singleton_self _))⟩
      | ok =>
        obtain ⟨evals, settings', rfl, hsetUp, hsettable', hkept'⟩ := setTemps_through ops hops hlive₂ hthrough
        refine ⟨(s.world, s₁.world) :: evals, settings ++ settings', by simp, .next hvalues.passes hcount hsets hsetUp,
          List.forall_mem_append.2 ⟨fun t ht => (hsettable t ht).mono (hlive₂.covers hthrough), hsettable'⟩,
          fun ref hreaches hleft => ?_⟩
        obtain ⟨hfirst, hrest⟩ := List.forall_mem_cons.1 hleft
        have hcovers' := hlive₁.covers hset
        exact (hevaluated ref hreaches hfirst).append (hkept' ref (hreaches.mono (hcovers.trans hcovers')) hrest)

end Evaluator

/-! ## Undoing -/

/-- What is left of variables that were set for a while: `w` is the machine before the form, `w₁` the one when all was
set up, or setting up failed, `w₂` the one when the body ended, and `w'` the one after. -/
structure Undone (who : TaskId) (ctx : Context) (evals : List (World × World)) (settings : List Setting)
    (w w₁ w₂ w' : World) : Prop where
  /-- What is read of a variable, through each reference that it was set through, is what it held when its first turn
  came. -/
  restored : ∀ {earlier setting later}, settings = earlier ++ setting :: later →
    (∀ t ∈ earlier, ¬w₂.Same ctx t.ref setting.ref) →
    ∀ t ∈ settings, w₂.Same ctx setting.ref t.ref → (t.ref.read ctx).Alone who (fun o _ => o = .ok (setting.held ctx)) w'
  /-- Other variables hold what they held when the body ended. -/
  untouched : ∀ {ref}, w₂.Reaches ctx ref → (∀ t ∈ settings, ¬w₂.Same ctx t.ref ref) → w'.value? ctx ref = w₂.value? ctx ref
  /-- If evaluating leaves a variable alone, then what it held before the form is what it holds when its first turn
  comes, or when setting up ends if it has no turn. -/
  kept : ∀ {ref}, w.Reaches ctx ref → (∀ x ∈ evals, x.2.value? ctx ref = x.1.value? ctx ref) → Kept ctx settings w w₁ ref

/-- What is spared does not depend on descriptors. -/
theorem World.Spares.withDescriptors {w w' : World} {ctx : Context} {refs : List Ref} (h : w.Spares ctx refs w')
    (ds : Descriptors) :
    w.Spares (ctx.withDescriptors ds) refs w' := ⟨h.covers, h.bound, h.fresh, h.cells, h.environment⟩

/-- Descriptors play no part in reading variables. -/
theorem Ref.read_withDescriptors (ctx : Context) (ds : Descriptors) :
    (ref : Ref) → ref.read (ctx.withDescriptors ds) = ref.read ctx
  | .member ns name => by
    unfold read
    rw [read_withDescriptors ctx ds ns]
  | @Ref.captured level name => by
    simp only [read, cell, Context.withDescriptors]
    refine congrArg (fun f => (ask (.taken ctx.frame ctx.captures name level .read) >>= f) >>= fun c => ask (.load c))
      (funext fun x => ?_)
    cases x <;> rfl
  | .local _ | .env _ | .builtin _ => by simp only [read, cell, Context.withDescriptors]

/-- Before variables are set, something that leaves them alone and something else are evaluated, and the descriptors may
change. -/
theorem Undone.around {who : TaskId} {ctx : Context} {ds : Descriptors} {evals : List (World × World)}
    {settings : List Setting}
    {v w₀ w w₁ w₂ w' : World} (h : Undone who (ctx.withDescriptors ds) evals settings w w₁ w₂ w')
    (hleft : v.Spares ctx [] w₀)
    (hrooted : v.Rooted) (hcovers : w₀.Covers w) : Undone who ctx ((w₀, w) :: evals) settings v w₁ w₂ w' where
  restored hsettings hfirst t ht hsame := by
    have hread := h.restored hsettings hfirst t ht hsame
    rwa [Ref.read_withDescriptors] at hread
  untouched hreaches hother := h.untouched hreaches hother
  kept {ref} hreaches hevals := by
    obtain ⟨hfirst, hrest⟩ := List.forall_mem_cons.1 hevals
    have hvalue : w.value? ctx ref = v.value? ctx ref :=
      hfirst.trans (hleft.value?_eq hrooted hreaches fun r hr => nomatch hr)
    have hkept := h.kept (hreaches.mono (hleft.covers.trans hcovers)) hrest
    exact (Kept.nil hvalue).append ⟨hkept.first, hkept.none⟩

/-- The descriptor table of a form before its redirections. -/
def Code.Form.table (form : Code.Form) (ctx : Context) (wiring : Wiring) : Descriptors :=
  (wiring.split (form.redirs.map (·.fd))).2.install ctx.descriptors

/-- A variable that evaluating leaves alone is read as what it held before the form. -/
theorem Undone.returned {who : TaskId} {ctx : Context} {evals : List (World × World)} {settings earlier later : List Setting}
    {setting : Setting} {w w₁ w₂ w' : World} (h : Undone who ctx evals settings w w₁ w₂ w')
    (hsettings : settings = earlier ++ setting :: later)
    (hfirst : ∀ t ∈ earlier, ¬t.world.Same ctx t.ref setting.ref ∧ ¬w₂.Same ctx t.ref setting.ref)
    (hreaches : w.Reaches ctx setting.ref)
    (hleft : ∀ x ∈ evals, x.2.value? ctx setting.ref = x.1.value? ctx setting.ref) :
    (setting.ref.read ctx).Alone who (fun o _ => o = .ok (w.reads ctx setting.ref)) w' := by
  have hmem : setting ∈ settings := hsettings ▸ List.mem_append_right _ List.mem_cons_self
  have hheld : setting.held ctx = w.reads ctx setting.ref :=
    congrArg (·.getD .empty) ((h.kept hreaches hleft).first hsettings (fun t ht => (hfirst t ht).1) rfl)
  exact hheld ▸ h.restored hsettings (fun t ht => (hfirst t ht).2) setting hmem (.inl rfl)

/-- Streams are no variables. -/
theorem World.Spares.of_streams {w w' : World} {ctx : Context} (h : w.Streams w') : w.Spares ctx [] w' :=
  .of_eq h.store (by rw [h])

/-- To close pipe ends changes no variables. -/
theorem Wiring.close_alone {who : TaskId} {ctx : Context} {w : World} :
    (wiring : Wiring) → wiring.close.Alone who (fun o w' => o = .ok () ∧ w.Spares ctx [] w') w
  | ⟨none, none⟩ => alone_pure ⟨rfl, .refl w ctx⟩
  | ⟨some i, none⟩ => alone_ask_bind rfl (alone_pure ⟨rfl, .of_streams (.perform w who (r := .closeInlet i) trivial)⟩)
  | ⟨none, some o⟩ => alone_ask rfl ⟨rfl, .of_streams (.perform w who (r := .closeOutlet o) trivial)⟩
  | ⟨some i, some o⟩ => alone_ask_bind rfl (alone_ask rfl ⟨rfl,
    (World.Spares.of_streams (.perform w who (r := .closeInlet i) trivial)).trans
    (.of_streams (.perform _ who (r := .closeOutlet o) trivial))⟩)

namespace Evaluator

variable {e : Evaluator} {who : TaskId} {ctx : Context}

/-- A body runs if all was set up, and a failure to do so takes its place. -/
inductive RunsAfter (who : TaskId) (body : Eval Unit) : Outcome → Site → Outcome → Site → Prop
  | ran {s s' : Site} {o : Outcome} (h : body.Passes who s o s') : RunsAfter who body (.ok ()) s o s'
  | skipped {s : Site} {ex : Exception} : RunsAfter who body (.error ex) s (.error ex) s

/-- How a form with temporary assignments goes. -/
inductive FormGoes (e : Evaluator) (who : TaskId) (form : Code.Form) (ctx : Context) (wiring : Wiring) (s : Site) :
    Outcome → Site → Prop
  /-- A redirection fails before any variable is set. -/
  | refused {w₀ w' : World} {s₁ : Site} {ex : Exception} (hleft : s.world.Spares ctx [] w₀)
      (hredirect : (e.redirect ctx form.redirs (form.table ctx wiring)).Passes who (s.on w₀) (.error ex) s₁)
      (hleft' : s₁.world.Spares ctx [] w') :
      FormGoes e who form ctx wiring s (.error (ex.passing form.place)) (s₁.on w')
  /-- Variables are set one after the other, the body runs if all of them could be set, and the variables are put back. -/
  | undone {w₀ w' : World} {s₁ s₂ s₃ : Site} {descriptors : Descriptors} {evals : List (World × World)}
      {settings : List Setting} {ready outcome : Outcome} (hleft : s.world.Spares ctx [] w₀)
      (hredirect : (e.redirect ctx form.redirs (form.table ctx wiring)).Passes who (s.on w₀) (.ok descriptors) s₁)
      (hsetUp : e.SetUp who (ctx.withDescriptors descriptors) form.temps s₁ evals settings ready s₂)
      (hturns : settings.map (·.ref) <+: form.temps.flatMap fun op => op.targets.map (·.ref))
      (hall : ready = .ok () → settings.map (·.ref) = form.temps.flatMap fun op => op.targets.map (·.ref))
      (hbody : RunsAfter who (e.evalAction form.action (ctx.withDescriptors descriptors)) ready s₂ outcome s₃)
      (hundone : Undone who ctx ((w₀, s₁.world) :: evals) settings s.world s₂.world s₃.world w') :
      FormGoes e who form ctx wiring s (outcome.mapError (·.passing form.place)) (s₃.on w')

/-- What ran under temporary assignments is followed by their undoing. -/
def undoing (ctx : Context) (saved : List Saved) (outcome : Outcome) : Eval Unit := do
  let restored ← ExceptT.lift (putBack ctx saved)
  match outcome with
  | .ok () => ofOutcome restored
  | .error ex => throw ex

/-- Temporary variables are set, the body runs, and they are put back. -/
theorem withTemps_eq {temps : List Code.Assign} (h : temps ≠ []) (body : Eval Unit) : e.withTemps temps ctx body = (do
    let (saved, ready) ← ExceptT.lift (e.setTemps ctx temps [])
    let outcome ← match ready with
      | .ok () => attempt body
      | .error ex => pure (.error ex)
    undoing ctx saved outcome) := by
  have hne : temps.isEmpty = false := by simpa using h
  unfold withTemps
  rw [if_neg (by simp [hne])]
  rfl

/-- Variables that were saved are put back, and no others change; what went before decides how it all comes out. -/
theorem undoing_through {settings : List Setting} {s s' : Site} {outcome o : Outcome} {k : Outcome → Task Outcome}
    (hlive : s.Live who (Task.bind (undoing ctx (settings.map (Setting.saved ctx)).reverse outcome).run k))
    (hthrough : (undoing ctx (settings.map (Setting.saved ctx)).reverse outcome).Through who k s o s')
    (hsettable : ∀ t ∈ settings, s.world.Settable ctx t.ref (t.held ctx)) :
    o = outcome ∧ s' = s.on s'.world ∧ s.world.Spares ctx ((settings.map (Setting.saved ctx)).reverse.map (·.1)) s'.world ∧
      World.Restored ctx (settings.map (Setting.saved ctx)).reverse s.world s'.world := by
  have hsaved : ∀ u ∈ (settings.map (Setting.saved ctx)).reverse, s.world.Settable ctx u.1 (u.2.getD .empty) := by
    intro u hu
    obtain ⟨t, ht, rfl⟩ := List.mem_map.1 (List.mem_reverse.1 hu)
    exact hsettable t ht
  unfold undoing at hlive hthrough
  obtain ⟨restored, s₁, hback, hthrough⟩ := through_lift_bind.1 hthrough
  obtain ⟨hs₁, rfl, hspares, hrestored⟩ := hback.alone (World.putBack_alone _ hlive.rooted hsaved)
  have hend : o = outcome ∧ s' = s₁ := by
    cases outcome <;> exact Task.through_ret.1 hthrough
  obtain ⟨rfl, rfl⟩ := hend
  exact ⟨rfl, hs₁, hspares, hrestored⟩

/-- A body under temporary assignments: `w` is the machine at first, and `after` one on which the variables are as at
last. -/
theorem withTemps_through {temps : List Code.Assign} (htemps : temps ≠ [])
    (hplain : ∀ op ∈ temps, ∀ target ∈ op.targets, target.rest = false ∧ target.ref.isWritable = true)
    {body : Eval Unit} {s s' : Site}
    {o : Outcome} {k : Outcome → Task Outcome} (hlive : s.Live who (Task.bind (e.withTemps temps ctx body).run k))
    (hthrough : (e.withTemps temps ctx body).Through who k s o s') :
    ∃ evals settings ready s₁ s₂, e.SetUp who ctx temps s evals settings ready s₁ ∧
      RunsAfter who body ready s₁ o s₂ ∧ s' = s₂.on s'.world ∧ ∀ after, s'.world.Spares ctx [] after →
      Undone who ctx evals settings s.world s₁.world s₂.world after := by
  rw [withTemps_eq htemps] at hlive hthrough
  obtain ⟨⟨saved, ready⟩, s₁, hset, hthrough⟩ := through_lift_bind.1 hthrough
  have hlive := hlive.lift_bind
  have hlive₁ := hlive.after hset
  obtain ⟨evals, settings, rfl, hsetUp, hsettable, hkept⟩ := setTemps_through temps hplain hlive hset
  rw [List.append_nil] at hthrough hlive₁
  -- However the body comes out, the undoing follows.
  have hundone : ∀ {s₂ outcome}, s₁.world.Covers s₂.world →
      s₂.Live who (Task.bind (undoing ctx (settings.map (Setting.saved ctx)).reverse outcome).run k) →
      (undoing ctx (settings.map (Setting.saved ctx)).reverse outcome).Through who k s₂ o s' →
      o = outcome ∧ s' = s₂.on s'.world ∧ ∀ after, s'.world.Spares ctx [] after →
      Undone who ctx evals settings s.world s₁.world s₂.world after := by
    intro s₂ outcome hcovers hlive₂ hundoing
    have hreaches : ∀ t ∈ settings, s₂.world.Settable ctx t.ref (t.held ctx) := fun t ht => (hsettable t ht).mono hcovers
    obtain ⟨ho, hs', hspares, hrestored⟩ := undoing_through hlive₂ hundoing hreaches
    refine ⟨ho, hs', fun after hafter => ⟨?_, ?_, fun hreaches hleft => hkept _ hreaches hleft⟩⟩
    · intro earlier setting later hsettings hfirst t ht hsame
      have hreach := (hreaches t ht).1
      have hreads : s'.world.reads ctx t.ref = setting.held ctx := by
        have hreverse : (settings.map (Setting.saved ctx)).reverse =
            (later.map (Setting.saved ctx)).reverse ++ setting.saved ctx :: (earlier.map (Setting.saved ctx)).reverse := by
          simp [hsettings]
        refine hrestored hreverse (fun u hu => ?_) hreach hsame
        obtain ⟨t, ht, rfl⟩ := List.mem_map.1 (List.mem_reverse.1 hu)
        exact hfirst t ht
      have hreach' := hreach.mono hspares.covers
      have hvalue := hafter.value?_eq (hspares.rooted hlive₂.rooted) hreach' fun r hr => nomatch hr
      refine Task.Alone.mono (hreach'.mono hafter.covers).read fun o _ ho => ho.trans (congrArg Except.ok ?_)
      rw [← hreads, World.reads, hvalue]
      rfl
    · intro ref hreaches hother
      rw [hafter.value?_eq (hspares.rooted hlive₂.rooted) (hreaches.mono hspares.covers) fun r hr => nomatch hr]
      refine hspares.value?_eq hlive₂.rooted hreaches fun r hr => ?_
      obtain ⟨u, hu, rfl⟩ := List.mem_map.1 hr
      obtain ⟨t, ht, rfl⟩ := List.mem_map.1 (List.mem_reverse.1 hu)
      exact hother t ht
  cases ready with
  | ok =>
    obtain ⟨outcome, s₂, hbody, hundoing⟩ := through_attempt_bind.1 hthrough
    have hlive₁ := hlive₁.lift_bind
    obtain ⟨rfl, hs', hundone⟩ := hundone (hlive₁.covers hbody) (hlive₁.after hbody) hundoing
    exact ⟨evals, settings, .ok (), s₁, s₂, hsetUp, .ran hbody.passes, hs', hundone⟩
  | error ex =>
    obtain ⟨rfl, hs', hundone⟩ := @hundone s₁ (.error ex) (.refl _) hlive₁ hthrough
    exact ⟨evals, settings, .error ex, s₁, s₁, hsetUp, .skipped, hs', hundone⟩

/-- What a form does between taking and closing its pipe ends. -/
def redirected (e : Evaluator) (form : Code.Form) (ctx : Context) (table : Descriptors) : Eval Unit := do
  let descriptors ← e.redirect ctx form.redirs table
  e.withTemps form.temps (ctx.withDescriptors descriptors) (e.evalAction form.action (ctx.withDescriptors descriptors))

/-- A form closes the ends it redirects, runs, and closes the others. -/
theorem evalForm_eq (form : Code.Form) (wiring : Wiring) : e.evalForm form ctx wiring = (do
    (wiring.split (form.redirs.map (·.fd))).1.close
    let outcome ← attempt (e.redirected form ctx (form.table ctx wiring))
    (wiring.split (form.redirs.map (·.fd))).2.close
    match outcome with
    | .ok () => pure ()
    | .error ex => throw (ex.passing form.place)) := rfl

/-- However a form with temporary assignments goes, they are undone. -/
theorem temporaries_undone {src : String} {source : Source.Form} {form : Code.Form} {scope scope' : Scope}
    (hcompile : (compileForm src source).run.run scope = (.ok form, scope')) (htemps : form.temps ≠ [])
    {wiring : Wiring} {s s' : Site}
    {o : Outcome} {k : Outcome → Task Outcome} (hlive : s.Live who (Task.bind (e.evalForm form ctx wiring).run k))
    (hthrough : (e.evalForm form ctx wiring).Through who k s o s') : e.FormGoes who form ctx wiring s o s' := by
  rw [evalForm_eq] at hlive hthrough
  generalize (wiring.split (form.redirs.map (·.fd))).1 = unused at hlive hthrough
  generalize (wiring.split (form.redirs.map (·.fd))).2 = used at hlive hthrough
  have hrooted : s.world.Rooted := hlive.rooted
  have hlive := hlive.eval_bind
  obtain ⟨ex, hclose, -⟩ | ⟨⟨⟩, s₀, hclose, hthrough⟩ := through_bind.1 hthrough
  · nomatch (hclose.alone (@Wiring.close_alone who ctx _ _)).2.1
  have hlive₀ := hlive.after hclose
  obtain ⟨hs₀, -, hleft⟩ : _ ∧ _ ∧ s.world.Spares ctx [] s₀.world := hclose.alone (Wiring.close_alone _)
  rw [hs₀] at hlive₀ hthrough
  obtain ⟨outcome, s₄, hmain, hthrough⟩ := through_attempt_bind.1 hthrough
  -- When all is over, the pipe ends are closed, and the outcome is passed on.
  have hend : s' = s₄.on s'.world ∧ s₄.world.Spares ctx [] s'.world ∧ o = outcome.mapError (·.passing form.place) := by
    obtain ⟨ex, hclose, -⟩ | ⟨⟨⟩, s₅, hclose, hthrough⟩ := through_bind.1 hthrough
    · nomatch (hclose.alone (@Wiring.close_alone who ctx _ _)).2.1
    · obtain ⟨hs₅, -, hleft⟩ : _ ∧ _ ∧ s₄.world.Spares ctx [] s₅.world := hclose.alone (Wiring.close_alone _)
      cases outcome with
      | ok =>
        obtain ⟨rfl, rfl⟩ := Task.through_ret.1 hthrough
        exact ⟨hs₅, hleft, rfl⟩
      | error ex =>
        obtain ⟨rfl, rfl⟩ := Task.through_ret.1 hthrough
        exact ⟨hs₅, hleft, rfl⟩
  obtain ⟨hs', hleft', rfl⟩ := hend
  have hlive₀ := hlive₀.lift_bind
  unfold redirected at hlive₀ hmain
  have hlive₀ := hlive₀.eval_bind
  obtain ⟨ex, hredirect, rfl⟩ | ⟨descriptors, s₁, hredirect, hmain⟩ := through_bind.1 hmain
  · rw [hs']
    exact .refused hleft hredirect.passes hleft'
  · have hlive₁ := hlive₀.after hredirect
    obtain ⟨evals, settings, ready, s₂, s₃, hsetUp, hbody, hs₄, hundone⟩ :=
      withTemps_through htemps (compileForm_temps hcompile) hlive₁ hmain
    have hs'' : s' = s₃.on s'.world := by
      rw [hs', hs₄]
      rfl
    rw [hs'']
    refine .undone hleft hredirect.passes hsetUp hsetUp.refs.1 hsetUp.refs.2 hbody ?_
    exact (hundone _ (hleft'.withDescriptors descriptors)).around hleft hrooted (hlive₀.covers hredirect)

/-- The form `x=new put $x`. -/
def lending : Source.Form :=
  ⟨[⟨[⟨"x", [], false⟩], [.bare "new"]⟩], Sample.command (.bare "put") [Sample.value "x"], [], ⟨0, 0⟩⟩

/-- The form, resolved. -/
def lent : Code.Form :=
  ⟨[⟨[⟨.local "x", [], false⟩], [.literal "new"]⟩], .call ⟨.builtin .put, [.var (.local "x") false], []⟩, [], ⟨"", ⟨0, 0⟩⟩⟩

/-- The form as a program. -/
def lentProgram : Code.Block := ⟨[⟨[lent], false, ⟨"", ⟨0, 0⟩⟩, "x=new put $x"⟩]⟩

/-- A machine that has resolved the program. -/
def lentMachine : World := (Sample.machine.compile 0 ⟨[⟨[lending], false, ⟨0, 0⟩⟩]⟩ "").2

/-- The task of the program at its start, and the machine. -/
def lentStart : Task Outcome × World :=
  let (main, _, _, w) := lentMachine.launch Sample.limits.evaluator 0 0 lentProgram [] []
  (main, { w with nextTask := w.nextTask + 1 })

/-- The form runs as a program. -/
theorem temporaries_undone_lent : ∃ (e : Evaluator) (ctx : Context) (s s' : Site) (o : Outcome) (k : Outcome → Task Outcome),
    lent.temps ≠ [] ∧ s.Live 0 (Task.bind (e.evalForm lent ctx .loose).run k) ∧
    (e.evalForm lent ctx .loose).Through 0 k s o s' ∧
      e.FormGoes 0 lent ctx .loose s o s' := by
  have hform : (compileForm "" lending).run.run (.ofGlobals []) = (.ok lent, (Scope.ofGlobals []).declare "x") := by cbv
  have hblock : (Sample.machine.compile 0 ⟨[⟨[lending], false, ⟨0, 0⟩⟩]⟩ "").1 = .ok lentProgram := by cbv
  have hcompile : Sample.machine.compile 0 ⟨[⟨[lending], false, ⟨0, 0⟩⟩]⟩ "" = (.ok lentProgram, lentMachine) :=
    Prod.ext hblock rfl
  have hkernel : (lentMachine.kernel? 0).map (·.globals) = some 0 := by cbv
  have hlive : (⟨[], [], lentStart.2⟩ : Site).Live 0 (lentStart.1.bind .ret) := Sample.started_live hcompile hkernel
  have hrun : (lentStart.1.run 0 100 false lentStart.2).1 = .ended (.ok ()) := by cbv
  have hthrough := Task.Through.of_turn [] [] (Prod.ext hrun rfl)
  have hmain : lentStart.1 = Task.bind ((Evaluator.atDepth 10 29).evalForm lent
      ⟨0, 0, [], .standard (.channel 0) (.collector 0) (.collector 1), []⟩ .loose).run (ExceptT.bindCont fun _ =>
      pure ()) := rfl
  rw [hmain] at hlive hthrough
  obtain ⟨o, s', hthrough, -⟩ := Task.through_bind.1 hthrough
  have htemps : lent.temps ≠ [] := List.cons_ne_nil _ _
  exact ⟨_, _, _, _, _, _, htemps, hlive.bind, hthrough, temporaries_undone hform htemps hlive.bind hthrough⟩

/-- The form `x=(y = 3; put 1) y=2 put $y`. -/
def meddling : Source.Form :=
  ⟨[⟨[⟨"x", [], false⟩],
    [.capture (Sample.chunk [Sample.assign "y" (.bare "3"), Sample.command (.bare "put") [.bare "1"]])]⟩,
    ⟨[⟨"y", [], false⟩], [.bare "2"]⟩], Sample.command (.bare "put") [Sample.value "y"], [], ⟨0, 0⟩⟩

/-- A variable is not what it was before a form if the form changes it before its turn comes. -/
theorem changed_before_turn :
    let w := (Sample.run Sample.machine [Sample.assign "y" (.bare "0")]).2
    let (x, w') := w.executeWithin Sample.limits 0 ⟨[⟨[meddling], false, ⟨0, 0⟩⟩]⟩ "" [] []
    Sample.texts (Sample.run w [Sample.command (.bare "put") [Sample.value "y"]]).1 = [some "0"] ∧
    Sample.texts x = [some "2"] ∧
      Sample.texts (Sample.run w' [Sample.command (.bare "put") [Sample.value "y"]]).1 = [some "3"] := by
  refine ⟨?_, ?_, ?_⟩ <;> cbv

end Evaluator

end DualShell
