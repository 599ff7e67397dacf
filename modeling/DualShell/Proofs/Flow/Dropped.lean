import DualShell.Proofs.Flow.Redirection
import DualShell.Proofs.Machine.Protocol
import DualShell.Proofs.Stream.Acts
import DualShell.Proofs.Twin.Lawful

/-!
# Pipe ends that are dropped

A form that redirects its output drops the producer's end it was handed before anything else, and a form that redirects
its input drops the consumer's end. Nobody else was handed either, so that the form after the first one finds its input
at the end, and the form before the second one finds its reader gone (`History.redirections_win`). That nobody else was
is what the surroundings of tasks are for: a task brings something to those channels only that its descriptors mention
(`Task.Spares`), and nothing mentions a channel before it is there (`History.spares`).
-/

namespace DualShell

open Eval

/-! ## Tasks that bring nothing to a channel -/

/-- The same numbers, and everything may be done but to write to the channel. -/
def Renaming.sparing (c : ChannelId) : Renaming := { plain with pipe := (· ≠ c) }

/-- Work that brings nothing to the channel. It may be a form that was handed the producer's end and redirects its output. -/
def Work.Spares (c : ChannelId) : Work → Prop
  | .form code ctx wiring => ctx.Usable (.sparing c) ∧ (wiring.output = some (.channel c) → 1 ∈ code.redirs.map (·.fd))
  | .job _ ctx _ => ctx.Usable (.sparing c)
  | .gather _ _ _ ctx => ctx.Usable (.sparing c)

namespace Request

variable (c : ChannelId)

/-- A request that brings nothing to the channel, and starts nothing that does. -/
def Spares : Request → Prop
  | .write o _ | .put o _ => o ≠ .channel c
  | .spawn work => work.Spares c
  | .startJob _ ctx => ctx.Usable (.sparing c)
  | _ => True

/-- The answer does not hand the channel over. -/
def Withholds : (r : Request) → r.Response → Prop
  | .openChannel _, x => x ≠ c
  | .openFile .., x => ∀ p : Connection, x = .ok p → p.Usable (.sparing c)
  | _, _ => True

end Request

/-- As long as it is not handed the channel, the task brings nothing to it. -/
def Task.Spares {α : Type} (c : ChannelId) : Task α → Prop
  | .ret _ => True
  | .request r next => r.Spares c ∧ ∀ x, r.Withholds c x → (next x).Spares c
  | .exhausted => True

variable {c : ChannelId}

/-- An end that may be written to is not that of the channel that is spared. -/
theorem Outlet.Writable.ne {o : Outlet} (h : o.Writable (.sparing c)) : o ≠ .channel c := by
  rintro rfl
  exact h rfl

/-- Any other end may be written to. -/
theorem Outlet.writable_of_ne {o : Outlet} (h : o ≠ .channel c) : o.Writable (.sparing c) := by
  cases o with
  | channel i => exact fun hi : i = c => h (congrArg _ hi)
  | file | collector => trivial

namespace Request

/-- Requests that may be asked under the renaming spare the channel. -/
theorem Spares.of_allowed {r : Request} (h : r.Allowed (Renaming.sparing c).scheme) : r.Spares c := by
  cases r with
  | write o data => exact Outlet.Writable.ne h
  | put o v => exact Outlet.Writable.ne h.1
  | spawn work =>
    cases work with
    | form form ctx wiring => exact ⟨h.1, fun ho => absurd rfl (h.2.output _ ho).ne⟩
    | job p ctx id => exact h
    | gather side i k ctx => exact h
  | startJob p ctx => exact h
  | _ => trivial

/-- Answers that withhold the channel are met by some. -/
theorem Withholds.exists_meets {r : Request} {x : r.Response} (h : r.Withholds c x) :
    ∃ x', r.Meets (Renaming.sparing c).scheme x x' := by
  cases r with
  | peek | fixed | takeCollected | item => exact ⟨x, rfl, fun _ _ => trivial⟩
  | load | adopt => exact ⟨x, rfl, trivial⟩
  | openChannel k => exact ⟨x, rfl, h⟩
  | openInput data values => exact ⟨x, rfl⟩
  | openCollector => exact ⟨x, rfl, rfl⟩
  | openFile path mode => exact ⟨x, rfl, fun p hp => ⟨Renaming.connection_plain p, h p hp⟩⟩
  | waitJob k id => exact ⟨x, rfl, ⟨fun _ _ => trivial, fun _ _ => trivial⟩, trivial⟩
  | spawn work => exact ⟨x, rfl, trivial⟩
  | join id => exact ⟨x, rfl, fun _ _ => trivial, trivial⟩
  | _ => exact ⟨x, HEq.rfl⟩

end Request

namespace Task

variable {α β : Type}

/-- What is a twin of itself where the channel must not be written to does not write to it. -/
theorem Twin.spares {Q : Multiset TaskId → α → β → Prop} {owed : Multiset TaskId} {t : Task α} {t' : Task β}
    (h : Twin (Renaming.sparing c).scheme Q owed t t') : t.Spares c := by
  induction h with
  | ret => trivial
  | request hr _ ih =>
    refine ⟨.of_allowed hr, fun x hx => ?_⟩
    obtain ⟨x', hmeets⟩ := hx.exists_meets
    exact ih x x' hmeets
  | exhausted => trivial

/-- Tasks one after another spare the channel if each does. -/
theorem Spares.bind {t : Task α} {f : α → Task β} (h : t.Spares c) (hf : ∀ a, (f a).Spares c) : (t.bind f).Spares c := by
  induction t with
  | ret a => exact hf a
  | request r next ih => exact ⟨h.1, fun x hx => ih x (h.2 x hx)⟩
  | exhausted => trivial

end Task

/-- Evaluation that is a twin of some under the renaming spares the channel. -/
theorem Eval.Twin.spares {α β : Type} {P : α → β → Prop} {x : Eval α} {x' : Eval β}
    (h : Eval.Twin (Renaming.sparing c).scheme P x x') : x.run.Spares c := Task.Twin.spares (h 0)

/-! ### Forms -/

/-- Ends are closed without being written to. -/
theorem Wiring.close_spares (w : Wiring) : w.close.run.Spares c := by
  obtain ⟨_ | i, _ | o⟩ := w
  · trivial
  · exact ⟨trivial, fun _ _ => trivial⟩
  · exact ⟨trivial, fun _ _ => trivial⟩
  · exact ⟨trivial, fun _ _ => ⟨trivial, fun _ _ => trivial⟩⟩

/-- The table a form starts with does not mention the channel if the form redirects its output. -/
theorem Code.Form.usable_table {form : Code.Form} {ctx : Context} {wiring : Wiring} (hctx : ctx.Usable (.sparing c))
    (hredirs : wiring.output = some (.channel c) → 1 ∈ form.redirs.map (·.fd)) :
    (form.table ctx wiring).Usable (.sparing c) := by
  have hused : ∀ o, (wiring.split (form.redirs.map (·.fd))).2.output = some o → o.Writable (.sparing c) := by
    intro o ho
    have hsplit : (wiring.split (form.redirs.map (·.fd))).2.output = if 1 ∈ form.redirs.map (·.fd) then
      none else wiring.output := by
      simp only [Wiring.split, List.contains_iff_mem]
    rw [hsplit] at ho
    refine Outlet.writable_of_ne ?_
    rintro rfl
    split at ho
    · cases ho
    · rename_i hnot
      exact hnot (hredirs ho)
  unfold table
  generalize (wiring.split (form.redirs.map (·.fd))).2 = used at hused
  have hinputless : (Wiring.mk none used.output).Usable (.sparing c) := ⟨by simp, hused⟩
  refine hinputless.install ?_
  cases used.input with
  | none => exact hctx.descriptors
  | some i =>
    refine hctx.descriptors.set 0 fun q hq => ?_
    cases Option.some.inj hq
    exact fun o ho => by cases ho

/-- A form that redirects its output away from the channel spares it. -/
theorem Evaluator.Twins.form_spares {e : Evaluator} (he : e.Twins (Renaming.sparing c).scheme) {form : Code.Form}
    {ctx : Context}
    {wiring : Wiring} (hctx : ctx.Usable (.sparing c))
    (hredirs : wiring.output = some (.channel c) → 1 ∈ form.redirs.map (·.fd)) :
    (e.evalForm form ctx wiring).run.Spares c := by
  have hinside : Twin (Renaming.sparing c).scheme anyway (e.redirected form ctx (form.table ctx wiring))
      (e.redirected form (ctx.rename (.sparing c)) ((form.table ctx wiring).rename (.sparing c))) := by
    refine (he.redirect hctx form.redirs (Code.Form.usable_table hctx hredirs)).bind fun t _ ⟨heq, ht⟩ => ?_
    subst heq
    exact he.withTemps (hctx.withDescriptors ht) form.temps (he.evalAction (hctx.withDescriptors ht) form.action)
  rw [evalForm_eq]
  refine (Wiring.close_spares _).bind fun closed => ?_
  cases closed with
  | error => trivial
  | ok =>
    refine Task.Spares.bind (hinside.spares.bind fun _ => trivial) fun outcome => ?_
    cases outcome with
    | error => trivial
    | ok outcome =>
      refine (Wiring.close_spares _).bind fun closed => ?_
      cases closed with
      | error => trivial
      | ok => cases outcome <;> trivial

/-- Work that may be done does what it may. -/
theorem Limits.work_spares (l : Limits) {work : Work} (h : work.Spares c) : (l.evaluator.evalWork work).Spares c := by
  cases work with
  | form form ctx wiring =>
    show ((Evaluator.atDepth l.loop l.depth).form form ctx wiring).run.Spares c
    cases l.depth with
    | zero => trivial
    | succ depth => exact (Evaluator.atDepth_twins l.loop depth).form_spares h.1 h.2
  | job p ctx id =>
    have hwork : Work.Usable (.sparing c) (.job p ctx id) := h
    have htwin := (Evaluator.atDepth_twins l.loop l.depth).evalWork (S := (Renaming.sparing c).scheme) hwork
    exact (htwin 0).spares
  | gather side i k ctx =>
    have hwork : Work.Usable (.sparing c) (.gather side i k ctx) := h
    have htwin := (Evaluator.atDepth_twins l.loop l.depth).evalWork (S := (Renaming.sparing c).scheme) hwork
    exact (htwin 0).spares

/-! ### Pipelines -/

/-- The rest of the start of a pipeline when the channel behind its first form is there. -/
def joinForms (ctx : Context) (input : Option Inlet) (f : Code.Form) (rest : List Code.Form) (c : ChannelId) :
    Eval (List TaskId) := do
  let id ← ask (.spawn (.form f ctx ⟨input, some (.channel c)⟩))
  return id :: (← startForms ctx (some (.channel c)) rest)

section

variable {α : Type} {ctx : Context} {input : Option Inlet} {f g : Code.Form} {rest : List Code.Form}

/-- What comes after the start of a pipeline comes after the start of the forms that are left. -/
theorem bind_joinForms (k : Except Exception (List TaskId) → Task α) : Task.bind (joinForms ctx input f rest c).run k =
    .request (.spawn (.form f ctx ⟨input, some (.channel c)⟩)) fun id =>
      Task.bind (startForms ctx (some (.channel c)) rest).run fun ids => k (ids.map (id :: ·)) := by
  refine congrArg (Task.request _) (funext fun id => ?_)
  refine (Task.bind_assoc (startForms ctx (some (.channel c)) rest).run _ k).trans (congrArg _ (funext fun ids => ?_))
  cases ids <;> rfl

/-- Forms are started in the surroundings of the pipeline. -/
theorem startForms_spares (hctx : ctx.Usable (.sparing c)) : (forms : List Code.Form) → {input : Option Inlet} →
    {k : Except Exception (List TaskId) → Task α} → (∀ ids, ids.length = forms.length → (k (.ok ids)).Spares c) →
    (Task.bind (startForms ctx input forms).run k).Spares c
  | [], _, _, hk => hk [] rfl
  | [form], _, _, hk => ⟨⟨hctx, nofun⟩, fun id _ => hk [id] rfl⟩
  | form :: form' :: rest, input, k, hk => by
    refine ⟨trivial, fun x hx => ?_⟩
    show (Task.bind (joinForms ctx input form (form' :: rest) x).run k).Spares c
    rw [bind_joinForms]
    refine ⟨⟨hctx, fun ho => absurd (Outlet.channel.inj (Option.some.inj ho)) hx⟩, fun id _ => ?_⟩
    exact startForms_spares hctx (form' :: rest) fun ids hids => hk (id :: ids) (congrArg (· + 1) hids)

/-- The surroundings of a pipeline that is about to be started do not mention a channel that its task does not write to,
and neither does what comes after it. -/
theorem spares_startForms : (forms : List Code.Form) → {input : Option Inlet} →
    {k : Except Exception (List TaskId) → Task α} → (Task.bind (startForms ctx input forms).run k).Spares c →
    (forms ≠ [] → ctx.Usable (.sparing c)) ∧ ∀ ids, ids.length = forms.length → (k (.ok ids)).Spares c
  | [], _, _, h => ⟨fun hne => absurd rfl hne, fun ids hids => List.length_eq_zero_iff.1 hids ▸ h⟩
  | [form], _, _, h => by
    refine ⟨fun _ => h.1.1, fun ids hids => ?_⟩
    obtain ⟨id, rfl⟩ := List.length_eq_one_iff.1 hids
    exact h.2 id trivial
  | form :: form' :: rest, input, k, h => by
    -- Any other channel will do.
    have hother : (Task.bind (joinForms ctx input form (form' :: rest) (c + 1)).run k).Spares c :=
      h.2 (c + 1) (Nat.succ_ne_self c)
    rw [bind_joinForms] at hother
    refine ⟨fun _ => hother.1.1, fun ids hids => ?_⟩
    obtain ⟨id, ids, rfl⟩ := List.exists_cons_of_length_eq_add_one hids
    exact (spares_startForms (form' :: rest) (hother.2 id trivial)).2 ids (Nat.succ.inj hids)

/-- A form that redirects its output may be handed the producer's end. -/
theorem Task.Spares.join {k : Except Exception (List TaskId) → Task α}
    (h : (Task.bind (startForms ctx input (f :: g :: rest)).run k).Spares c)
    (hredirs : 1 ∈ f.redirs.map (·.fd)) : (Task.bind (joinForms ctx input f (g :: rest) c).run k).Spares c := by
  obtain ⟨hctx, hk⟩ := spares_startForms _ h
  rw [bind_joinForms]
  refine ⟨⟨hctx nofun, fun _ => hredirs⟩, fun id _ => ?_⟩
  exact startForms_spares (hctx nofun) (g :: rest) fun ids hids => hk (id :: ids) (congrArg (· + 1) hids)

end

/-! ## Histories -/

namespace World

variable {w w' : World} {who : TaskId} {r : Request} {x : r.Response}

/-- No request takes a channel away. -/
theorem channels_le (w : World) (who : TaskId) (r : Request) : w.channels.size ≤ (w.perform who r).2.channels.size := by
  by_contra hlt
  obtain ⟨ch, hch⟩ := Array.getElem?_eq_some_iff.2 ⟨Nat.not_le.1 hlt, rfl⟩ |> fun h =>
    (⟨_, h⟩ : ∃ ch, w.channels[_]? = some ch)
  obtain ⟨ch', hch', -⟩ := w.acts hch who r
  exact absurd (Array.getElem?_eq_some_iff.1 hch').1 (Nat.lt_irrefl _)

/-- A channel is handed over when it comes into being. -/
theorem withholds (hx : w.perform who r = (some x, w')) (hc : c < w.channels.size ∨ w'.channels.size ≤ c) :
    r.Withholds c x := by
  cases r with
  | openChannel k =>
    cases hx
    rcases hc with hlt | hle
    · exact fun heq : w.channels.size = c => absurd heq (Nat.ne_of_gt hlt)
    · have hle : (w.channels.push _).size ≤ c := hle
      rw [Array.size_push] at hle
      exact fun heq : w.channels.size = c => absurd heq (Nat.ne_of_lt hle)
  | openFile path mode =>
    have hfile : ∀ p : Connection, (w.openFile path mode).1 = .ok p → p.Usable (.sparing c) := by
      intro p hp o ho
      unfold World.openFile at hp
      split at hp <;> split at hp <;> cases hp <;> cases ho
      all_goals trivial
    cases hx
    exact hfile
  | _ => trivial

end World

/-- No task of the machine brings anything to the channel, and nothing that was started does. -/
structure Pool.Spares (c : ChannelId) (p : Pool) : Prop where
  tasks : ∀ t ∈ p.tasks, t.2.Spares c
  spawned : ∀ s ∈ p.world.spawned, s.2.Spares c

namespace Pool

variable {p p' : Pool} {ds : List Deed} {ch : Channel}

/-- What a step does to a channel: nothing, or what a request of a task does. -/
theorem Step.channel (hs : p.Step ds p') (hch : p.world.channels[c]? = some ch) :
    (p'.world.channels[c]? = some ch ∧ ∀ who w r x w', .answered who w r x w' ∉ ds) ∨
      ∃ who r next x ch', (who, .request r next) ∈ p.tasks ∧ p'.world.channels[c]? = some ch' ∧ ch.Acts c who r x ch' ∧
        ds = x.toList.map (Deed.answered who p.world r · p'.world) := by
  cases hs with
  | @answer _ who r _ _ w _ _ hx | @wait _ who r _ _ w _ hx =>
    obtain ⟨ch', hch', hacts⟩ := w.acts hch who r
    rw [hx] at hch' hacts
    exact .inr ⟨who, r, _, _, ch', List.mem_append_right _ List.mem_cons_self, hch', hacts, rfl⟩
  | finish => exact .inl ⟨hch, by simp⟩
  | giveUp | takeUp => exact .inl ⟨hch, by simp⟩

/-- No step takes a channel away. -/
theorem Step.channels_le (hs : p.Step ds p') : p.world.channels.size ≤ p'.world.channels.size := by
  cases hs with
  | @answer _ who r _ _ w _ _ hx | @wait _ who r _ _ w _ hx =>
    have hle := w.channels_le who r
    rwa [hx] at hle
  | finish | giveUp | takeUp => exact Nat.le_refl _

namespace Spares

/-- What a request that spares the channel starts spares it, too. -/
theorem request {w : World} {tasks : List (TaskId × Task Outcome)} (h : Pool.Spares c ⟨tasks, w⟩) {r : Request}
    (hr : r.Spares c) (who : TaskId) : ∀ s ∈ (w.perform who r).2.spawned, s.2.Spares c := by
  obtain ⟨-, -, hsame⟩ | ⟨work, hbegins, -, hspawned⟩ := w.perform_begins who r
  · exact hsame.symm ▸ h.spawned
  · have hwork : work.Spares c := by
      cases r with
      | spawn started => exact (show work = started from hbegins) ▸ hr
      | startJob p ctx =>
        obtain ⟨id, rfl⟩ := hbegins
        exact hr
      | _ => exact hbegins.elim
    rw [hspawned]
    exact List.forall_mem_append.2 ⟨h.spawned, List.forall_mem_singleton.2 hwork⟩

/-- The channel is there, or not yet. -/
theorem step (h : p.Spares c) (hs : p.Step ds p') (hc : c < p.world.channels.size ∨ p'.world.channels.size ≤ c) :
    p'.Spares c := by
  cases hs with
  | @answer before who r next after w x w' hx =>
    obtain ⟨hr, hnext⟩ : Task.Spares c (.request r next) := h.tasks (who, .request r next) (by simp)
    have hspawned := h.request hr who
    rw [hx] at hspawned
    refine ⟨fun t ht => ?_, hspawned⟩
    simp only [List.mem_append, List.mem_cons] at ht
    rcases ht with ht | rfl | ht
    · exact h.tasks t (by simp [ht])
    · exact hnext x (World.withholds hx hc)
    · exact h.tasks t (by simp [ht])
  | @wait before who r next after w w' hx =>
    have hspawned := h.request (h.tasks (who, .request r next) (by simp)).1 who
    rw [hx] at hspawned
    exact ⟨h.tasks, hspawned⟩
  | finish | giveUp =>
    refine ⟨fun t ht => h.tasks t ?_, h.spawned⟩
    simp only [List.mem_append, List.mem_cons] at ht ⊢
    exact ht.imp_right .inr
  | takeUp l =>
    refine ⟨fun t ht => ?_, List.forall_mem_nil _⟩
    rcases List.mem_append.1 ht with ht | ht
    · exact h.tasks t ht
    · obtain ⟨s, hs, rfl⟩ := List.mem_map.1 ht
      exact l.work_spares (h.spawned s hs)

end Spares

end Pool

/-- No task mentions a channel that is not there yet. -/
theorem History.spares {Supplied : List Deed → Value → Prop} {ds : List Deed} {p : Pool} (h : History Supplied ds p)
    (hc : p.world.channels.size ≤ c) : p.Spares c := by
  induction h with
  | create files source => exact ⟨List.forall_mem_nil _, List.forall_mem_nil _⟩
  | step h hs ih => exact (ih (Nat.le_trans hs.channels_le hc)).step hs (.inr hc)
  | addKernel config env h ih => exact ⟨(ih hc).tasks, (ih hc).spawned⟩
  | compile h hk hcompile ih =>
    obtain ⟨scope, -, rfl⟩ := compile_block hcompile
    exact ⟨(ih hc).tasks, (ih hc).spawned⟩
  | @launch ds tasks w k block names kernel values main out err w' l input h hblock hk hvalues hlaunch ih =>
    cases hlaunch
    have hearlier := ih (Nat.le_trans (Array.size_push _ ▸ Nat.le_succ _) hc)
    refine ⟨List.forall_mem_append.2 ⟨hearlier.tasks, List.forall_mem_singleton.2 ?_⟩, hearlier.spawned⟩
    have htop : (Descriptors.standard (.channel w.channels.size) (.collector w.collectors.size)
        (.collector (w.collectors.push ⟨[], []⟩).size)).Usable (.sparing c) := Descriptors.usable_standard trivial trivial
    exact ((Evaluator.atDepth_twins l.loop l.depth).evalBlock (S := (Renaming.sparing c).scheme) ⟨htop,
      trivial⟩ block).spares
  | setVar name h hk hv ih =>
    have hearlier := ih (hc.trans' (Nat.le_of_eq (by unfold World.setVar; split <;> rfl)))
    exact ⟨hearlier.tasks, by unfold World.setVar; split <;> exact hearlier.spawned⟩
  | setEnv k name text h ih | handOut h hv ih | identify fresh h ih | clearModules h ih =>
    exact ⟨(ih hc).tasks, (ih hc).spawned⟩
  | takeCollected i h ih =>
    unfold World.takeCollected at hc ⊢
    split at hc
    · exact ⟨(ih hc).tasks, (ih hc).spawned⟩
    · exact ⟨(ih hc).tasks, (ih hc).spawned⟩
  | takeEnded h ht ih =>
    unfold World.takeEnded at ht
    split at ht <;> cases ht
    exact ⟨(ih hc).tasks, (ih hc).spawned⟩

/-! ## What becomes of a channel -/

/-- Whoever reads from a channel finds its end, and need not wait for it when a share of its producer's end was dropped. -/
structure InputEnds (c : ChannelId) (ds : List Deed) (w : World) : Prop where
  found : ∀ who u r x u', .answered who u r x u' ∈ ds → r.Reads c → r.FindsEnd x
  dropped : ∀ who u x u', .answered who u (.closeOutlet (.channel c)) x u' ∈ ds →
    ∀ who r, r.Reads c → ∃ x, (w.perform who r).1 = some x ∧ r.FindsEnd x

/-- Whoever brings something to a channel whose consumer's end was dropped finds that nobody is there to read it. -/
def RefusedAfterClose (c : ChannelId) (ds : List Deed) (w : World) : Prop :=
  ∀ earlier who u x u' later, ds = earlier ++ .answered who u (.closeInlet (.channel c)) x u' :: later →
    (∀ who u r x u', .answered who u r x u' ∈ later → r.Writes c → r.FindsGone x) ∧
      ∀ who r, r.Writes c → ∃ x, (w.perform who r).1 = some x ∧ r.FindsGone x

/-- Who spares a channel does not write to it. -/
theorem Request.Spares.not_writes {r : Request} (h : r.Spares c) : ¬r.Writes c := by
  cases r with
  | write => exact fun hwrites => h hwrites.1
  | put => exact h
  | _ => exact id

namespace Pool

variable {p p' : Pool} {ds : List Deed} {ch : Channel} {shares : Nat}

/-- Nothing came through a channel, and no task brings anything to it. -/
structure Unfed (c : ChannelId) (shares : Nat) (p : Pool) : Prop extends p.Spares c where
  blank : ∃ ch, p.world.channels[c]? = some ch ∧ ch.Blank shares

namespace Unfed

/-- While nobody writes to a channel, a step brings nothing to it, and whoever reads finds its end once no shares are
left. -/
theorem step (h : p.Unfed c shares) (hshares : shares ≤ 1) (hs : p.Step ds p') : ∃ left ≤ shares, p'.Unfed c left ∧
    ∀ who w r x w', .answered who w r x w' ∈ ds → (r = .closeOutlet (.channel c) → left = 0) ∧
    (r.Reads c → r.FindsEnd x) := by
  obtain ⟨ch, hch, hblank⟩ := h.blank
  have hspares := h.toSpares.step hs (.inl (Array.getElem?_eq_some_iff.1 hch).1)
  obtain ⟨hch', hnone⟩ | ⟨who, r, next, x, ch', hmem, hch', hacts, rfl⟩ := hs.channel hch
  · exact ⟨shares, Nat.le_refl _, ⟨hspares, ch, hch', hblank⟩, fun who w r x w' hd => absurd hd (hnone who w r x w')⟩
  · have hr : r.Spares c := (h.tasks _ hmem).1
    obtain ⟨⟨left, hle, hblank', hclosed⟩, hreads⟩ := hacts.blank hblank hshares hr.not_writes
    refine ⟨left, hle, ⟨hspares, ch', hch', hblank'⟩, fun who' w r' y w' hd => ?_⟩
    obtain ⟨y', hy, heq⟩ := List.mem_map.1 hd
    cases heq
    exact ⟨hclosed, fun hread => (hreads hread).1 _ (Option.mem_toList.1 hy)⟩

/-- So does a run. -/
theorem goes (h : p.Unfed c shares) (hshares : shares ≤ 1) (hgoes : p.Goes ds p') : ∃ left ≤ shares, p'.Unfed c left ∧
    ∀ who w r x w', .answered who w r x w' ∈ ds → (r = .closeOutlet (.channel c) → left = 0) ∧
    (r.Reads c → r.FindsEnd x) := by
  induction hgoes generalizing shares with
  | refl p => exact ⟨shares, Nat.le_refl _, h, fun _ _ _ _ _ hd => absurd hd List.not_mem_nil⟩
  | step hs _ ih =>
    obtain ⟨left, hle, hunfed, hfirst⟩ := h.step hshares hs
    obtain ⟨left', hle', hunfed', hrest⟩ := ih hunfed (Nat.le_trans hle hshares)
    refine ⟨left', Nat.le_trans hle' hle, hunfed', fun who w r x w' hd => ?_⟩
    rcases List.mem_append.1 hd with hd | hd
    · obtain ⟨hclosed, hread⟩ := hfirst who w r x w' hd
      exact ⟨fun hr => Nat.le_zero.1 (hclosed hr ▸ hle'), hread⟩
    · exact hrest who w r x w' hd

/-- When no share is left, reads are answered. -/
theorem read (h : p.Unfed c 0) (who : TaskId) {r : Request} (hr : r.Reads c) :
    ∃ x, (p.world.perform who r).1 = some x ∧ r.FindsEnd x := by
  obtain ⟨ch, hch, hblank⟩ := h.blank
  obtain ⟨ch', -, hacts⟩ := p.world.acts hch who r
  have hspares : ¬r.Writes c := by cases r <;> first | exact id | exact hr.elim
  obtain ⟨hend, hanswered⟩ := (hacts.blank hblank (Nat.zero_le _) hspares).2 hr
  obtain ⟨x, hx⟩ := Option.ne_none_iff_exists'.1 (hanswered rfl)
  exact ⟨x, hx, hend x hx⟩

/-- So the input of whoever reads ends. -/
theorem inputEnds (h : p.Unfed c 1) (hgoes : p.Goes ds p') : InputEnds c ds p'.world := by
  obtain ⟨left, -, hunfed, hall⟩ := h.goes (Nat.le_refl _) hgoes
  refine ⟨fun who u r x u' hd => (hall who u r x u' hd).2, fun who u x u' hd reader r hr => ?_⟩
  cases (hall who u _ x u' hd).1 rfl
  exact hunfed.read reader hr

end Unfed

/-- A step is at most one deed. -/
theorem Step.deeds_le (hs : p.Step ds p') : ds.length ≤ 1 := by cases hs <;> simp

/-- When the consumer is gone it stays so. -/
theorem Step.deserted (hs : p.Step ds p') (hch : p.world.channels[c]? = some ch) : ∃ ch', p'.world.channels[c]? = some ch' ∧
    (ch.Deserted → ch'.Deserted ∧ ∀ who w r x w', .answered who w r x w' ∈ ds → r.Writes c → r.FindsGone x) ∧
    ∀ who w x w', .answered who w (.closeInlet (.channel c)) x w' ∈ ds → ch'.Deserted := by
  obtain ⟨hch', hnone⟩ | ⟨who, r, next, x, ch', -, hch', hacts, rfl⟩ := hs.channel hch
  · exact ⟨ch, hch', fun h => ⟨h, fun who w r x w' hd => absurd hd (hnone who w r x w')⟩,
      fun who w x w' hd => absurd hd (hnone who w _ x w')⟩
  · obtain ⟨hstays, hgone⟩ := hacts.deserted
    refine ⟨ch', hch', fun h => ⟨hstays (.inl h), fun who' w r' y w' hd hwrites => ?_⟩, fun who' w y w' hd => ?_⟩
    · obtain ⟨y', hy, heq⟩ := List.mem_map.1 hd
      cases heq
      obtain ⟨z, hz, hfinds⟩ := hgone h hwrites
      cases (Option.mem_toList.1 hy).symm.trans hz
      exact hfinds
    · obtain ⟨y', hy, heq⟩ := List.mem_map.1 hd
      cases heq
      exact hstays (.inr rfl)

/-- A channel that was deserted stays so, and whoever writes to it finds nobody there to read. -/
theorem Goes.deserted (hgoes : p.Goes ds p') (hch : p.world.channels[c]? = some ch) (h : ch.Deserted) :
    (∃ ch', p'.world.channels[c]? = some ch' ∧ ch'.Deserted) ∧
      ∀ who w r x w', .answered who w r x w' ∈ ds → r.Writes c → r.FindsGone x := by
  induction hgoes generalizing ch with
  | refl p => exact ⟨⟨ch, hch, h⟩, fun _ _ _ _ _ hd => absurd hd List.not_mem_nil⟩
  | step hs _ ih =>
    obtain ⟨ch', hch', hstays, -⟩ := hs.deserted hch
    obtain ⟨h', hfirst⟩ := hstays h
    obtain ⟨hlast, hrest⟩ := ih hch' h'
    refine ⟨hlast, fun who w r x w' hd => ?_⟩
    rcases List.mem_append.1 hd with hd | hd
    · exact hfirst who w r x w' hd
    · exact hrest who w r x w' hd

/-- Once the consumer's end of a channel was dropped, everything is refused there. -/
theorem Goes.refusedAfterClose (hgoes : p.Goes ds p') (hch : p.world.channels[c]? = some ch) :
    RefusedAfterClose c ds p'.world := by
  induction hgoes generalizing ch with
  | refl p => exact fun earlier who u x u' later heq => by simp at heq
  | @step p p₁ p' ds₁ ds₂ hs hrest ih =>
    obtain ⟨ch', hch', -, hclosed⟩ := hs.deserted hch
    intro earlier who u x u' later heq
    obtain ⟨earlier', rfl, hlater⟩ | ⟨middle, hmiddle, hlater⟩ := List.append_eq_append_iff.1 heq
    · exact ih hch' earlier' who u x u' later hlater
    cases middle with
    | nil => exact ih hch' [] who u x u' later hlater.symm
    | cons d middle =>
      obtain ⟨rfl, rfl⟩ := List.cons.inj hlater
      have hmem : Deed.answered who u (.closeInlet (.channel c)) x u' ∈ ds₁ :=
        hmiddle ▸ List.mem_append_right _ List.mem_cons_self
      obtain rfl : middle = [] := by
        have hone := hs.deeds_le
        rw [hmiddle, List.length_append, List.length_cons] at hone
        exact List.length_eq_zero_iff.1 (by omega)
      obtain ⟨⟨ch'', hch'', hgone⟩, hrefused⟩ := hrest.deserted hch' (hclosed who u x u' hmem)
      refine ⟨hrefused, fun writer r hr => ?_⟩
      obtain ⟨_, -, hacts⟩ := p'.world.acts hch'' writer r
      exact hacts.deserted.2 hgone hr

end Pool

/-! ## Main result -/

/-- Redirections win over wiring. A form takes only those pipe ends that it does not redirect, and makes its
redirections from left to right on the table it then has (`Evaluator.Redirection`). What becomes of the channel between
two forms of a pipeline, in whatever order tasks go on from the point where it is opened: if the first of the two
redirects its output, whoever reads from the channel finds its end. Once the second one has closed its end, whoever
writes to it finds that nobody is there to read it. -/
theorem History.redirections_win {Supplied : List Deed → Value → Prop} {ds ds' : List Deed}
    {before after : List (TaskId × Task Outcome)}
    {who : TaskId} {w w' : World} {ctx : Context} {input : Option Inlet} {f g : Code.Form} {rest : List Code.Form}
    {k : Except Exception (List TaskId) → Task Outcome} {p : Pool}
    (h : History Supplied ds ⟨before ++ (who, Task.bind (startForms ctx input (f :: g :: rest)).run k) :: after, w⟩)
    (hopen : w.perform who (.openChannel ctx.kernel) = (some c, w'))
    (hgoes : Pool.Goes ⟨before ++ (who, Task.bind (joinForms ctx input f (g :: rest) c).run k) :: after, w'⟩ ds' p) :
    (∀ (e : Evaluator) (form : Code.Form) (ctx : Context) (wiring : Wiring), e.Redirection form ctx wiring) ∧
      (1 ∈ f.redirs.map (·.fd) → InputEnds c ds' p.world) ∧ RefusedAfterClose c ds' p.world := by
  cases hopen
  have hnew : ∀ ch : Channel, (w.channels.push ch)[w.channels.size]? = some ch := fun ch => Array.getElem?_push_size
  refine ⟨fun e form ctx wiring => e.redirection form ctx wiring, fun hredirs => ?_, hgoes.refusedAfterClose (hnew _)⟩
  have hspares := h.spares (c := w.channels.size) (Nat.le_refl _)
  have hstart : Task.Spares w.channels.size (Task.bind (startForms ctx input (f :: g :: rest)).run k) :=
    hspares.tasks (who, _) (List.mem_append_right _ List.mem_cons_self)
  refine Pool.Unfed.inputEnds ?_ hgoes
  refine ⟨⟨fun t ht => ?_, hspares.spawned⟩, _, hnew _, ?_⟩
  · simp only [List.mem_append, List.mem_cons] at ht
    rcases ht with ht | rfl | ht
    · exact hspares.tasks t (by simp [ht])
    · exact hstart.join hredirs
    · exact hspares.tasks t (by simp [ht])
  · split <;> exact Channel.blank_create _ _

/-! ### A pipeline to see it on -/

namespace History

/-- The forms `put a >&-` and `put b <&-`. -/
def unlinked : List Source.Form :=
  [⟨[], Sample.command (.bare "put") [.bare "a"], [⟨1, .write, .close⟩], ⟨0, 0⟩⟩,
    ⟨[], Sample.command (.bare "put") [.bare "b"], [⟨0, .read, .close⟩], ⟨0, 0⟩⟩]

/-- The forms, resolved. -/
def unlinkedForms : Code.Form × Code.Form :=
  (⟨[], .call ⟨.builtin .put, [.literal "a"], []⟩, [⟨1, .write, .close⟩], ⟨"", ⟨0, 0⟩⟩⟩,
    ⟨[], .call ⟨.builtin .put, [.literal "b"], []⟩, [⟨0, .read, .close⟩], ⟨"", ⟨0, 0⟩⟩⟩)

/-- The pipeline as a program. -/
def unlinkedProgram : Code.Block := ⟨[⟨[unlinkedForms.1, unlinkedForms.2], false, ⟨"", ⟨0, 0⟩⟩, "put a 1>&- | put b 0<&-"⟩]⟩

/-- A machine that has resolved the program. -/
def unlinkedMachine : World := (Sample.machine.compile 0 ⟨[⟨unlinked, false, ⟨0, 0⟩⟩]⟩ "").2

/-- The pipeline runs, and each of the two forms drops the end of the channel that it was handed. -/
theorem redirections_win_closed : ∃ (ds ds' : List Deed) (who : TaskId) (w w' : World) (ctx : Context) (c : ChannelId)
    (k : Except Exception (List TaskId) → Task Outcome) (p : Pool),
    History Made ds ⟨[] ++ (who, Task.bind (startForms ctx none [unlinkedForms.1, unlinkedForms.2]).run k) :: [], w⟩ ∧
      w.perform who (.openChannel ctx.kernel) = (some c, w') ∧
      Pool.Goes ⟨[] ++ (who, Task.bind (joinForms ctx none unlinkedForms.1 [unlinkedForms.2] c).run k) :: [], w'⟩ ds' p ∧
      InputEnds c ds' p.world ∧ RefusedAfterClose c ds' p.world := by
  have hblock : (Sample.machine.compile 0 ⟨[⟨unlinked, false, ⟨0, 0⟩⟩]⟩ "").1 = .ok unlinkedProgram := by cbv
  have hcompile : Sample.machine.compile 0 ⟨[⟨unlinked, false, ⟨0, 0⟩⟩]⟩ "" = (.ok unlinkedProgram, unlinkedMachine) :=
    Prod.ext hblock rfl
  have hkernel : (unlinkedMachine.kernel? 0).isSome := by cbv
  obtain ⟨kernel, hkernel⟩ := Option.isSome_iff_exists.1 hkernel
  rcases hlaunch : unlinkedMachine.launch Sample.limits.evaluator 0 kernel.globals unlinkedProgram [] [] with ⟨main,
    out, err, w⟩
  have hstart := ((Sample.start Made).compile rfl hcompile).launch Sample.limits [] (List.mem_singleton_self _) hkernel
    (List.forall_mem_nil _) hlaunch
  obtain ⟨ctx, k, rfl⟩ : ∃ ctx k, main = Task.bind (startForms ctx none [unlinkedForms.1, unlinkedForms.2]).run k :=
    ⟨_, _, (congrArg Prod.fst hlaunch).symm.trans (Task.bind_assoc _ _ _)⟩
  generalize { w with nextTask := w.nextTask + 1 } = u at hstart
  obtain ⟨u', hopen⟩ : ∃ u', u.perform w.nextTask (.openChannel ctx.kernel) = (some u.channels.size, u') := ⟨_, rfl⟩
  have hgoes := Pool.Goes.run Sample.limits 100 10
    ⟨[] ++ (w.nextTask, Task.bind (joinForms ctx none unlinkedForms.1 [unlinkedForms.2] u.channels.size).run k) :: [], u'⟩
  obtain ⟨-, hends, hrefused⟩ := redirections_win hstart hopen hgoes
  exact ⟨_, _, _, u, u', ctx, _, k, _, hstart, hopen, hgoes, hends (List.mem_singleton_self _), hrefused⟩

end History

end DualShell
