import DualShell.Eval.Run
import DualShell.Proofs.Eval.Command

/-!
# Runs that behave

Forms and pipelines are safe where they may run, and what they start beside themselves may run as well. By induction on
the depth of evaluation, so is all that the evaluator runs (`Evaluator.atDepth_behaves`).
-/

namespace DualShell

open Eval

variable {D : Discipline} {P : Placement D} {s : D.State} {ctx : Context}

/-! ## Forms -/

/-- To close the ends that a form was given suits everybody. -/
theorem Wiring.close_harmless {K : Course D} (w : Wiring) : w.close.Harmless K := by
  have hinput : ∀ i, (ask (.closeInlet i)).Harmless K := fun _ => .ask trivial fun _ => trivial
  have houtput : ∀ o, (ask (.closeOutlet o)).Harmless K := fun _ => .ask trivial fun _ => trivial
  obtain ⟨input, output⟩ := w
  cases input with
  | none =>
    cases output with
    | none => exact .pure _
    | some o => exact houtput o
  | some i =>
    cases output with
    | none => exact .bind (hinput i) fun _ => .pure _
    | some o => exact .bind (hinput i) fun _ => houtput o

/-- A descriptor that is not open is a plain failure. -/
theorem Quality.Plain.duplicate {q : Quality} (ds : Descriptors) (source fd : Nat) : q.Plain (ds.duplicate source fd) := by
  unfold Descriptors.duplicate
  split <;> trivial

namespace Evaluator.Behaves

variable {e : Evaluator} (he : e.Behaves P)
include he

/-- Redirections evaluate the words in them and change descriptors only. -/
theorem redirect : (redirs : List Code.Redir) → ∀ {descriptors : Descriptors} {s : D.State},
    ctx.Suits P s (Code.redirsMentions redirs) → (e.redirect ctx redirs descriptors).Safe D.aside anything s
  | [], _, _, _ => .pure trivial
  | ⟨fd, mode, target⟩ :: rs, descriptors, s, h => by
    unfold Evaluator.redirect
    dsimp only
    split
    · exact redirect rs h.right
    · exact Safe.andThen (Safe.ofPlain (.duplicate _ _ _)) fun _ s' hs => redirect rs (h.right.later hs)
    · refine (he.single h.left _).andThen fun v s' hs => ?_
      refine Safe.andThen (Safe.ofPlain (.expectString _ _)) fun path s'' hs' => ?_
      refine Safe.andThen (Safe.ask_plain trivial trivial) fun opened s₃ hs'' => ?_
      have hopened : (D.quality s₃).Plain (opened.mapError fun e => Cause.io s!"{path}: {e.message}") := by
        cases opened <;> trivial
      refine Safe.andThen (Safe.ofPlain hopened) fun connection s₄ hs₃ => ?_
      exact redirect rs (h.right.later (D.trans (D.trans (D.trans hs hs') hs'') hs₃))

/-- What a form does is an assignment, a call or a special form. -/
theorem evalAction (hload : P.LoadsSafely) {action : Code.Action} (h : ctx.Suits P s action.mentions) :
    (e.evalAction action ctx).Safe D.aside anything s := by
  cases action with
  | assign op => exact he.evalAssign h
  | special op => exact he.evalSpecial hload h
  | call op => exact he.evalCall h

/-- A form may be evaluated where the context suits what it mentions. -/
theorem evalForm (hload : P.LoadsSafely) {form : Code.Form} {wiring : Wiring} (h : ctx.Suits P s form.mentions) :
    (e.evalForm form ctx wiring).Safe D.aside anything s := by
  obtain ⟨temps, action, redirs, place⟩ := form
  have hbody : ∀ s', D.Later s s' → ∀ used : Wiring, Safe D.aside anything (do
      let descriptors ← e.redirect ctx redirs (used.install ctx.descriptors)
      let ctx := ctx.withDescriptors descriptors
      e.withTemps temps ctx (e.evalAction action ctx) : Eval Unit) s' := by
    intro s' hs used
    refine (he.redirect redirs (h.left.left.later hs)).andThen fun descriptors s'' hs' => ?_
    refine he.withTemps ((h.left.right.later (D.trans hs hs')).withDescriptors _) fun s₃ hs'' => ?_
    exact he.evalAction hload ((h.right.later (D.trans (D.trans hs hs') hs'')).withDescriptors _)
  unfold Evaluator.evalForm
  refine Safe.andThen (Wiring.close_harmless (K := D.aside) _ s) fun _ s' hs => ?_
  refine (hbody s' hs _).attempt.bind fun outcome s'' hs' hout => ?_
  refine Safe.andThen (Wiring.close_harmless (K := D.aside) _ s'') fun _ s₃ hs'' => ?_
  split
  · exact .pure trivial
  · exact .throw (Exception.Sound.passing (Exception.Sound.mono (D.quality_mono hs'') hout) _)

end Evaluator.Behaves

/-! ## Pipelines -/

/-- Forms of a pipeline may be started as tasks where the context suits what they mention. -/
theorem Placement.Lawful.startForms (hP : P.Lawful) : (forms : List Code.Form) → ∀ {input : Option Inlet} {s : D.State},
    ctx.Suits P s (Code.formsMentions forms) → (startForms ctx input forms).Safe D.aside anything s
  | [], _, _, _ => .pure trivial
  | [form], _, _, h => (hP.spawn h.left).andThen fun _ _ _ => .pure trivial
  | form :: form' :: rest, input, s, h => by
    unfold DualShell.startForms
    refine Safe.andThen (Safe.ask_plain trivial trivial) fun c s' hs => ?_
    refine (hP.spawn (h.left.later hs)).andThen fun id s'' hs' => ?_
    exact (startForms hP (form' :: rest) (h.right.later (D.trans hs hs'))).andThen fun _ _ _ => .pure trivial

/-- How tasks ended is a sound matter. -/
theorem joinAll_safe {K : Course D} : (ids : List TaskId) → (s : D.State) →
    (joinAll ids).Safe K (fun os s' => ∀ o ∈ os, Outcome.Sound (D.quality s') o) s
  | [], _ => .pure (List.forall_mem_nil _)
  | id :: ids, s => by
    unfold joinAll
    refine Safe.bind (Safe.ask_plain trivial trivial) fun o s' _ ho => ?_
    refine (joinAll_safe ids s').bind fun os s'' hs hos => .pure (List.forall_mem_cons.2 ⟨?_, hos⟩)
    exact Outcome.Sound.mono (K.quality_mono hs) ho

/-- What is collected of something safe is a sound result. -/
theorem Context.collect_safe {K : Course D} {input : Inlet} {body : Context → Eval Unit}
    (hbody : ∀ ds s', K.Leads s s' → (body (ctx.withDescriptors ds)).Safe K anything s') :
    (ctx.collect input body).Safe K (fun r s' => r.Sound (D.quality s')) s := by
  unfold Context.collect
  refine Safe.andThen (Safe.ask_plain trivial trivial) fun out s' hs => ?_
  refine Safe.andThen (Safe.ask_plain trivial trivial) fun err s'' hs' => ?_
  refine (hbody _ s'' (K.trans hs hs')).attempt_outcome.bind fun outcome s₃ _ hout => ?_
  refine Safe.bind (Safe.ask_plain trivial trivial) fun content s₄ hs₃ hcontent => ?_
  refine Safe.andThen (Safe.ask_plain trivial trivial) fun errors s₅ hs₄ => .pure ?_
  refine .ofOutput (fun v hv => (hcontent v hv).mono (K.quality_mono hs₄))
    (Outcome.Sound.mono (K.quality_mono (K.trans hs₃ hs₄)) hout)

namespace Evaluator.Behaves

variable {e : Evaluator} (he : e.Behaves P)
include he

/-- A pipeline in the foreground is its one form, or starts several and joins them. -/
theorem evalForeground {p : Code.Pipeline} (h : ctx.Suits P s p.mentions) :
    (e.evalForeground p ctx).Safe D.aside anything s := by
  obtain ⟨forms, background, place, text⟩ := p
  unfold Evaluator.evalForeground
  dsimp only
  split
  · exact .pure trivial
  · exact he.form (Context.Suits.left h)
  · refine (he.startForms _ h).andThen fun ids s' _ => ?_
    refine (joinAll_safe ids s').bind fun outcomes s'' _ houtcomes => ?_
    exact .ofOutcome (.compose houtcomes place)

/-- A pipeline, whether it is waited for or becomes a job. -/
theorem evalPipeline {p : Code.Pipeline} (h : ctx.Suits P s p.mentions) :
    (e.evalPipeline p ctx).Safe D.aside anything s := by
  unfold Evaluator.evalPipeline
  split
  · exact (he.startJob h).andThen fun _ _ _ => .pure trivial
  · exact he.evalForeground h

/-- Pipelines are evaluated one after another. -/
theorem evalPipelines : (ps : List Code.Pipeline) → ∀ {s : D.State}, ctx.Suits P s (Code.pipelinesMentions ps) →
    (e.evalPipelines ctx ps).Safe D.aside anything s
  | [], _, _ => .pure trivial
  | _ :: ps, _, h => (he.evalPipeline h.left).andThen fun _ _ hs => evalPipelines ps (h.right.later hs)

/-- A block is its pipelines. -/
theorem evalBlock {b : Code.Block} (h : ctx.Suits P s b.mentions) : (e.evalBlock b ctx).Safe D.aside anything s := by
  obtain ⟨ps⟩ := b
  exact he.evalPipelines ps h

/-- A job is its pipeline. -/
theorem evalJob {p : Code.Pipeline} {id : JobId} (h : ctx.Suits P s p.mentions) :
    (e.evalJob p ctx id).Safe D.aside anything s := by
  unfold Evaluator.evalJob
  refine Safe.andThen (Safe.ask_plain trivial (List.forall_mem_nil _)) fun c s' hs => ?_
  refine (Context.collect_safe fun ds s'' hs' => he.evalForeground ((h.later (D.trans hs hs')).withDescriptors ds)).bind
    fun r s'' _ hr => ?_
  exact Safe.trivially (Safe.ask_plain trivial hr)

end Evaluator.Behaves

/-! ## The evaluator -/

/-- All that the evaluator runs is safe where it may run. -/
theorem Evaluator.atDepth_behaves (hP : P.Lawful) (hload : P.LoadsSafely) (bound depth : Nat) :
    (Evaluator.atDepth bound depth).Behaves P := by
  induction depth with
  | zero => exact ⟨hP, fun _ => .exhausted, fun _ => .exhausted, fun _ => .exhausted, fun _ _ _ _ => .exhausted⟩
  | succ depth ih => exact ⟨hP, ih.evalBlock, ih.evalForm hload, ih.evalOperand, ih.callValue⟩

/-- Work may run if its code may, where it is to run. -/
def Work.Suits (P : Placement D) (s : D.State) : Work → Prop
  | .form code ctx _ => ctx.Suits P s code.mentions
  | .job p ctx _ => ctx.Suits P s p.mentions
  | .gather _ _ _ ctx => ctx.Suits P s []

/-- Work that may run keeps the contract and ends with a sound outcome. -/
theorem Evaluator.Behaves.evalWork {e : Evaluator} (he : e.Behaves P) {work : Work} (h : work.Suits P s) :
    (e.evalWork work).Keeps D (fun o s' => Outcome.Sound (D.quality s') o) s := by
  cases work with
  | form form ctx wiring => exact (he.form h).outcome
  | job p ctx id => exact (he.evalJob h).outcome
  | gather side c k ctx => exact (gather_harmless (K := D.aside) side c k e.bound s).outcome

end DualShell
