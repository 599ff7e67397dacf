import DualShell.Eval.Run
import DualShell.Proofs.Eval.Run
import DualShell.Proofs.Twin.Command
import DualShell.Proofs.Value.Sound

/-!
# Runs under other numbers

Forms and pipelines in renamed surroundings are twins of themselves. A pipeline joins every task that it began, so that
its failure, if it is one of several, is made of those of its forms. By induction on the depth of evaluation, all that
the evaluator runs is a twin of itself (`Evaluator.atDepth_twins`).
-/

namespace DualShell

open Eval

variable {S : Scheme} {ctx : Context}

/-! ## Forms -/

/-- The ends that a form was given are closed on both machines. -/
theorem Wiring.close_twin {w : Wiring} (h : w.Usable S.toRenaming) :
    Twin S anyway w.close (w.rename S.toRenaming).close := by
  have hinput : ∀ i, w.input = some i →
    Twin S anyway (Eval.ask (.closeInlet i)) (Eval.ask (.closeInlet (i.rename S.toRenaming))) :=
    fun i hi => (Twin.ask (r := .closeInlet i) (h.input i hi) fun _ _ => rfl).mono fun _ _ _ => rfl
  have houtput : ∀ o, w.output = some o →
    Twin S anyway (Eval.ask (.closeOutlet o)) (Eval.ask (.closeOutlet (o.rename S.toRenaming))) :=
    fun o ho => (Twin.ask (r := .closeOutlet o) (h.output o ho) fun _ _ => rfl).mono fun _ _ _ => rfl
  obtain ⟨input, output⟩ := w
  cases input with
  | none =>
    cases output with
    | none => exact .pure rfl
    | some o => exact houtput o rfl
  | some i =>
    cases output with
    | none => exact (hinput i rfl).andThen fun _ => .pure rfl
    | some o => exact (hinput i rfl).andThen fun _ => houtput o rfl

namespace Evaluator.Twins

variable {e : Evaluator} (he : e.Twins S)
include he

/-- Redirections change the descriptors alike. -/
theorem redirect (hctx : ctx.Usable S.toRenaming) : (redirs : List Code.Redir) → {t : Descriptors} → t.Usable S.toRenaming →
    Twin S (fun t t' => t' = t.rename S.toRenaming ∧ t.Usable S.toRenaming) (e.redirect ctx redirs t)
      (e.redirect (ctx.rename S.toRenaming) redirs (t.rename S.toRenaming))
  | [], _, ht => .pure ⟨rfl, ht⟩
  | ⟨fd, mode, target⟩ :: rs, t, ht => by
    unfold Evaluator.redirect
    dsimp only
    split
    · have hset : (t.rename S.toRenaming).set fd none = (t.set fd none).rename S.toRenaming := t.set_rename fd none
      rw [hset]
      exact redirect hctx rs (ht.set fd fun _ h => nomatch h)
    · rw [Descriptors.duplicate_rename]
      rename_i source
      cases hd : t.duplicate source fd with
      | error c => exact Twin.bind (P := fun _ _ => False) (.fail c) fun _ _ h => h.elim
      | ok t' => exact redirect hctx rs (ht.duplicate hd)
    · refine (he.single hctx _ _).bind fun v _ ⟨heq, _⟩ => ?_
      subst heq
      refine (Twin.plainly _).andThen fun path => ?_
      refine Twin.bind (.ask (r := .openFile path mode) trivial fun _ _ => rfl) fun _ opened ⟨heq, hopened⟩ => ?_
      subst heq
      cases opened with
      | error err => exact Twin.bind (P := fun _ _ => False) (.fail _) fun _ _ h => h.elim
      | ok p =>
        obtain ⟨hsame, husable⟩ := hopened p rfl
        have hset : (t.rename S.toRenaming).set fd (some p) = (t.set fd (some p)).rename S.toRenaming := by
          rw [← t.set_rename, Option.map_some, hsame]
        show Twin S _ (e.redirect ctx rs (t.set fd (some p)))
          (e.redirect (ctx.rename S.toRenaming) rs ((t.rename S.toRenaming).set fd (some p)))
        rw [hset]
        exact redirect hctx rs (ht.set fd fun q hq => by cases hq; exact husable)

/-- What a form does is done on both machines. -/
theorem evalAction (hctx : ctx.Usable S.toRenaming) (action : Code.Action) :
    Twin S anyway (e.evalAction action ctx) (e.evalAction action (ctx.rename S.toRenaming)) := by
  cases action with
  | assign op => exact he.evalAssign hctx op
  | special op => exact he.evalSpecial hctx op
  | call op => exact he.evalCall hctx op

/-- A form does the same if it may use the ends that it was given. -/
theorem evalForm (form : Code.Form) {wiring : Wiring} (hctx : ctx.Usable S.toRenaming) (hw : wiring.Usable S.toRenaming) :
    Twin S anyway (e.evalForm form ctx wiring) (e.evalForm form (ctx.rename S.toRenaming) (wiring.rename S.toRenaming)) := by
  obtain ⟨temps, action, redirs, place⟩ := form
  obtain ⟨hunused, hused⟩ := hw.split (redirs.map (·.fd))
  have hbody : Twin S anyway
      (do let descriptors ← e.redirect ctx redirs ((wiring.split (redirs.map (·.fd))).2.install ctx.descriptors)
          let ctx := ctx.withDescriptors descriptors
          e.withTemps temps ctx (e.evalAction action ctx) : Eval Unit)
      (do let descriptors ← e.redirect (ctx.rename S.toRenaming) redirs
            (((wiring.split (redirs.map (·.fd))).2.rename S.toRenaming).install (ctx.rename S.toRenaming).descriptors)
          let ctx := (ctx.rename S.toRenaming).withDescriptors descriptors
          e.withTemps temps ctx (e.evalAction action ctx) : Eval Unit) := by
    rw [Context.rename_descriptors, Wiring.install_rename]
    refine (he.redirect hctx redirs (hused.install hctx.descriptors)).bind fun t _ ⟨heq, ht⟩ => ?_
    subst heq
    have hctx' := hctx.withDescriptors ht
    exact he.withTemps hctx' temps (he.evalAction hctx' action)
  unfold Evaluator.evalForm
  rw [Wiring.split_rename]
  refine (Wiring.close_twin hunused).andThen fun _ => hbody.attempt_outcome.bind fun outcome _ ⟨heq, hout⟩ => ?_
  subst heq
  refine (Wiring.close_twin hused).andThen fun _ => ?_
  split
  · exact .pure rfl
  · exact .throw (S.law.passing _ (Law.outcome_error.1 hout))

end Evaluator.Twins

/-! ## Pipelines -/

/-- The task was begun to run the form. -/
def Scheme.Began (S : Scheme) (form : Code.Form) (id : TaskId) : Prop :=
  ∃ ctx wiring, S.noted (.spawn (.form form ctx wiring)) id

/-- The tasks of a pipeline were begun in order, and are yet to be joined. -/
structure Scheme.BeganAll (S : Scheme) (forms : List Code.Form) (owed owed' : Multiset TaskId) (ids : List TaskId) :
    Prop where
  owed : owed' = ids + owed
  began : List.Forall₂ S.Began forms ids

/-- The forms of a pipeline are started as tasks that are counterparts, each of which is to be joined. -/
theorem startForms_twin (hctx : ctx.Usable S.toRenaming) : (forms : List Code.Form) → {input : Option Inlet} →
    (∀ i, input = some i → i.Closable S.toRenaming) → (owed : Multiset TaskId) →
    Task.Twin S (fun owed' r r' => ∃ ids, r = .ok ids ∧ r' = .ok (ids.map S.task) ∧ S.BeganAll forms owed owed' ids) owed
      (startForms ctx input forms).run (startForms (ctx.rename S.toRenaming) (input.map (·.rename S.toRenaming)) forms).run
  | [], _, _, _ => .ret ⟨[], rfl, rfl, (Multiset.zero_add _).symm, .nil⟩
  | [form], input, hinput, owed => by
    refine Task.Twin.asks (r := .spawn (.form form ctx ⟨input, none⟩)) ⟨hctx, hinput, fun _ h => by cases h⟩ fun id _ h => ?_
    obtain ⟨heq, hnoted⟩ := h
    subst heq
    exact .ret ⟨[id], rfl, rfl, rfl, .cons ⟨_, _, hnoted⟩ .nil⟩
  | form :: form' :: rest, input, hinput, owed => by
    unfold startForms
    refine Task.Twin.asks (r := .openChannel ctx.kernel) trivial fun c _ h => ?_
    obtain ⟨heq, hpipe⟩ := h
    subst heq
    have hwiring : Wiring.Usable S.toRenaming ⟨input, some (.channel c)⟩ := ⟨hinput, fun o ho => by cases ho; exact hpipe⟩
    refine Task.Twin.asks (r := .spawn (.form form ctx ⟨input, some (.channel c)⟩)) ⟨hctx, hwiring⟩ fun id _ h => ?_
    obtain ⟨heq, hnoted⟩ := h
    subst heq
    have hnext : ∀ i, some (Inlet.channel c) = some i → i.Closable S.toRenaming := fun i hi => by cases hi; exact hpipe
    refine Task.Twin.bind (startForms_twin hctx (form' :: rest) hnext (id ::ₘ owed)) fun owed' r r' hr => ?_
    obtain ⟨ids, rfl, rfl, h⟩ := hr
    refine .ret ⟨id :: ids, rfl, rfl, ?_, .cons ⟨_, _, hnoted⟩ h.began⟩
    rw [h.owed, ← Multiset.cons_coe, Multiset.add_cons, Multiset.cons_add]

/-- Tasks that were begun and are yet to be joined are told of with the same outcomes. -/
theorem joinAll_twin : (ids : List TaskId) → (owed : Multiset TaskId) →
    Task.Twin S (fun owed' r r' => ∃ os, r = .ok os ∧ r' = .ok os ∧ owed' = owed ∧
      List.Forall₂ (fun id o => S.noted (.join id) o) ids os ∧ ∀ o ∈ os, S.law.outcome o) (ids + owed)
      (joinAll ids).run (joinAll (ids.map S.task)).run
  | [], owed => .ret ⟨[], rfl, rfl, Multiset.zero_add _, .nil, List.forall_mem_nil _⟩
  | id :: ids, owed => by
    refine Task.Twin.asks (r := .join id) trivial fun _ o ⟨heq, hlawful, hnoted⟩ => ?_
    subst heq
    have howes : Request.owes (.join id) o (((id :: ids : List TaskId) : Multiset TaskId) + owed) = ids + owed := by
      show Multiset.erase _ id = _
      rw [← Multiset.cons_coe, Multiset.cons_add, Multiset.erase_cons_head]
    rw [howes]
    refine Task.Twin.bind (joinAll_twin ids owed) fun owed' r r' hr => ?_
    obtain ⟨os, rfl, rfl, rfl, hjoined, hos⟩ := hr
    exact .ret ⟨o :: os, rfl, rfl, rfl, .cons hnoted hjoined, List.forall_mem_cons.2 ⟨hlawful, hos⟩⟩

/-- The failure of a pipeline is that of a form, or made of those of two or more. -/
theorem composeOutcomes_lawful {p : Code.Pipeline} {ids : List TaskId} {os : List Outcome}
    (hbegan : List.Forall₂ S.Began p.forms ids) (hjoined : List.Forall₂ (fun id o => S.noted (.join id) o) ids os)
    (hos : ∀ o ∈ os, S.law.outcome o) : S.law.outcome (composeOutcomes os p.place) := by
  have hcounted : ∀ e ∈ countedFailures os, S.law.failure e := fun e he => hos _ (countedFailures_subset he) e rfl
  unfold composeOutcomes
  split
  · exact Law.outcome_ok
  · rename_i h
    exact Law.outcome_error.2 (hcounted _ (h ▸ List.mem_cons_self))
  · rename_i hnone hone
    exact Law.outcome_error.2 (S.law.passing _ (S.notes.composed hbegan hjoined (ListAux.two_le_length hnone hone) hcounted))

/-- What is collected of twins. -/
theorem Context.collect_twin {input input' : Inlet} (hinput : input' = input.rename S.toRenaming)
    {body body' : Context → Eval Unit} (hbody : ∀ t : Descriptors, t.Usable S.toRenaming →
      Twin S anyway (body (ctx.withDescriptors t))
      (body' ((ctx.rename S.toRenaming).withDescriptors (t.rename S.toRenaming)))) :
    Twin S (Same S.law.result) (ctx.collect input body) ((ctx.rename S.toRenaming).collect input' body') := by
  subst hinput
  unfold collect
  refine Twin.bind (.ask (r := .openCollector) trivial fun _ _ => rfl) fun out _ ⟨heq, hout⟩ => ?_
  subst heq
  refine Twin.bind (.ask (r := .openCollector) trivial fun _ _ => rfl) fun err _ ⟨heq, herr⟩ => ?_
  subst heq
  have hstandard : (Descriptors.standard input (.collector out) (.collector err)).Usable S.toRenaming :=
    Descriptors.usable_standard trivial trivial
  refine (hbody _ hstandard).attempt_outcome.bind fun outcome _ ⟨heq, houtcome⟩ => ?_
  subst heq
  refine Twin.bind (.ask (r := .takeCollected out) hout fun _ _ => rfl) fun _ content ⟨heq, hcontent⟩ => ?_
  subst heq
  refine Twin.bind (.ask (r := .takeCollected err) herr fun _ _ => rfl) fun _ errors ⟨heq, _⟩ => ?_
  subst heq
  exact .pure ⟨rfl, Law.result_ofOutput hcontent houtcome⟩

namespace Evaluator.Twins

variable {e : Evaluator} (he : e.Twins S) (hctx : ctx.Usable S.toRenaming)
include he hctx

/-- A pipeline in the foreground comes to the same. -/
theorem evalForeground (p : Code.Pipeline) :
    Twin S anyway (e.evalForeground p ctx) (e.evalForeground p (ctx.rename S.toRenaming)) := by
  unfold Evaluator.evalForeground
  split
  · exact .pure rfl
  · exact he.form _ hctx Wiring.usable_loose
  · intro owed
    have hfirst : ∀ i, (none : Option Inlet) = some i → i.Closable S.toRenaming := fun _ h => nomatch h
    refine Task.Twin.bind (startForms_twin hctx p.forms hfirst owed) fun owed' r r' hr => ?_
    obtain ⟨ids, rfl, rfl, hids⟩ := hr
    rw [hids.owed]
    refine Task.Twin.bind (joinAll_twin ids owed) fun owed' r r' hr => ?_
    obtain ⟨os, rfl, rfl, rfl, hjoined, hos⟩ := hr
    exact Twin.ofOutcome (composeOutcomes_lawful hids.began hjoined hos) _

/-- A pipeline does the same, as a job or in the foreground. -/
theorem evalPipeline (p : Code.Pipeline) :
    Twin S anyway (e.evalPipeline p ctx) (e.evalPipeline p (ctx.rename S.toRenaming)) := by
  unfold Evaluator.evalPipeline
  split
  · exact Twin.bind (.ask (r := .startJob p ctx) hctx fun _ _ => rfl) fun _ _ _ => .pure rfl
  · exact he.evalForeground hctx p

theorem evalPipelines : (ps : List Code.Pipeline) →
    Twin S anyway (e.evalPipelines ctx ps) (e.evalPipelines (ctx.rename S.toRenaming) ps)
  | [] => .pure rfl
  | p :: ps => (he.evalPipeline hctx p).andThen fun _ => evalPipelines ps

theorem evalBlock (b : Code.Block) : Twin S anyway (e.evalBlock b ctx) (e.evalBlock b (ctx.rename S.toRenaming)) :=
  he.evalPipelines hctx b.pipelines

/-- A job comes to the same. -/
theorem evalJob (p : Code.Pipeline) (id : JobId) :
    Twin S anyway (e.evalJob p ctx id) (e.evalJob p (ctx.rename S.toRenaming) id) := by
  unfold Evaluator.evalJob
  refine Twin.bind (.ask (r := .openInput [] []) (List.forall_mem_nil _) fun _ _ => rfl) fun c _ hc => ?_
  have hinput : Inlet.channel _ = (Inlet.channel c).rename S.toRenaming := congrArg Inlet.channel hc
  have hbody : ∀ t : Descriptors, t.Usable S.toRenaming → Twin S anyway (e.evalForeground p (ctx.withDescriptors t))
      (e.evalForeground p ((ctx.rename S.toRenaming).withDescriptors (t.rename S.toRenaming))) := fun t ht =>
    he.evalForeground (hctx.withDescriptors ht) p
  refine (ctx.collect_twin hinput hbody).bind fun _ r ⟨heq, hr⟩ => ?_
  subst heq
  exact (Twin.ask (r := .finishJob ctx.kernel id r) hr fun _ _ => rfl).mono fun _ _ _ => rfl

end Evaluator.Twins

/-! ## The evaluator -/

/-- All that the evaluator runs is a twin of itself under other numbers. -/
theorem Evaluator.atDepth_twins (bound depth : Nat) : (Evaluator.atDepth bound depth).Twins S := by
  induction depth with
  | zero => exact ⟨fun _ _ _ => .exhausted, fun _ _ _ _ _ => .exhausted, fun _ _ _ => .exhausted, fun _ _ _ _ => .exhausted⟩
  | succ depth ih =>
    exact ⟨fun b _ hctx => ih.evalBlock hctx b, fun form _ _ hctx hw => ih.evalForm form hctx hw, fun op _ hctx =>
      ih.evalOperand hctx op, fun hctx _ hargs hopts => ih.callValue hctx hargs hopts⟩

/-- What runs beside the code that started it is a twin of itself. -/
theorem Evaluator.Twins.evalWork {e : Evaluator} (he : e.Twins S) {work : Work} (h : work.Usable S.toRenaming) :
    Task.Steady S (Same S.law.outcome) (e.evalWork work) (e.evalWork (work.rename S.toRenaming)) := by
  have houtcome {x x' : Eval Unit} (h : Twin S anyway x x') : Task.Steady S (Same S.law.outcome) x.run x'.run := fun owed =>
    (h owed).mono fun _ _ _ ⟨ho, hr⟩ => by
      cases hr with
      | ok => exact ⟨ho, rfl, Law.outcome_ok⟩
      | error h => exact ⟨ho, rfl, Law.outcome_error.2 h⟩
  cases work with
  | form form ctx wiring => exact houtcome (he.form form h.1 h.2)
  | job p ctx id => exact houtcome (he.evalJob h p id)
  | gather side c k ctx => exact houtcome (gather_twin side c k e.bound)

end DualShell
