import DualShell.Eval.Form
import DualShell.Proofs.Eval.Conduct
import DualShell.Proofs.Program.Tool

/-!
# Commands that behave

Assignments, calls and special forms are safe where they may run. A call of a closure enters it in the surroundings of
the caller (`Evaluator.Behaves.callClosure`); what a builtin or a program of the system does meets nothing but values
and streams.
-/

namespace DualShell

open Eval

variable {D : Discipline} {P : Placement D} {s : D.State} {ctx : Context}

/-! ## Assignments -/

/-- Targets that may be changed here, and sound values for them. -/
def SharesSuit (P : Placement D) (s : D.State) (ctx : Context) (shares : List (Code.Target × Value)) : Prop :=
  ∀ p ∈ shares, ctx.Suits P s (p.1.ref.changeMentions ++ Code.operandsMentions p.1.indices) ∧ p.2.Sound (D.quality s)

/-- Variables that are to be put back may be changed here, and what they held is sound. -/
def SavedSuit (P : Placement D) (s : D.State) (ctx : Context) (saved : List Saved) : Prop :=
  ∀ p ∈ saved, ctx.Suits P s p.1.changeMentions ∧ ∀ v, p.2 = some v → v.Sound (D.quality s)

/-- What is to be assigned may still be assigned later. -/
theorem SharesSuit.later {s' : D.State} {shares : List (Code.Target × Value)} (h : SharesSuit P s ctx shares)
    (hs : D.Later s s') :
    SharesSuit P s' ctx shares := fun p hp => ⟨(h p hp).1.later hs, (h p hp).2.mono (D.quality_mono hs)⟩

/-- Values that were set aside may still be put back later. -/
theorem SavedSuit.later {s' : D.State} {saved : List Saved} (h : SavedSuit P s ctx saved) (hs : D.Later s s') :
    SavedSuit P s' ctx saved :=
  fun p hp => ⟨(h p hp).1.later hs, fun v hv => ((h p hp).2 v hv).mono (D.quality_mono hs)⟩

/-- What a target mentions is mentioned by all of them. -/
theorem Code.mem_targetsMentions {t : Code.Target} : {ts : List Code.Target} → t ∈ ts →
    t.ref.changeMentions ++ Code.operandsMentions t.indices ⊆ Code.targetsMentions ts
  | ⟨_, _, _⟩ :: ts, h => by
    unfold Code.targetsMentions
    rcases List.mem_cons.1 h with rfl | h
    · exact List.subset_append_left _ _
    · exact List.Subset.trans (Code.mem_targetsMentions h) (List.subset_append_right _ _)

/-- What the targets of an assignment share out are the values it has. -/
theorem mem_shares {p : Code.Target × Value} {q : Quality} :
    {ts : List Code.Target} → {vs : List Value} → Value.AllSound q vs → p ∈ shares ts vs → p.1 ∈ ts ∧ p.2.Sound q
  | [], _, _, h => absurd h List.not_mem_nil
  | t :: ts, vs, hvs, h => by
    have hlater : ∀ ws, Value.AllSound q ws → p ∈ shares ts ws → p.1 ∈ t :: ts ∧ p.2.Sound q :=
      fun ws hws hp => (mem_shares hws hp).imp_left (List.mem_cons_of_mem _)
    have hnone : Value.AllSound q [] := List.forall_mem_nil _
    unfold shares at h
    split at h
    · rcases List.mem_cons.1 h with rfl | h
      · exact ⟨List.mem_cons_self, .list hvs⟩
      · exact hlater [] hnone h
    · split at h
      · rename_i v vs
        rcases List.mem_cons.1 h with rfl | h
        · exact ⟨List.mem_cons_self, hvs _ List.mem_cons_self⟩
        · exact hlater vs (fun v hv => hvs v (List.mem_cons_of_mem _ hv)) h
      · rcases List.mem_cons.1 h with rfl | h
        · exact ⟨List.mem_cons_self, .empty⟩
        · exact hlater [] hnone h

/-- A wrong number of values is a plain failure. -/
theorem Quality.Plain.checkArity {q : Quality} (targets : List Code.Target) (got : Nat) :
    q.Plain (DualShell.checkArity targets got) := by
  unfold DualShell.checkArity
  dsimp only
  split <;> split <;> trivial

namespace Placement.Lawful

variable (hP : P.Lawful)
include hP

/-- Variables are set for a while, and what they held is kept. -/
theorem setAside : (shares : List (Code.Target × Value)) → ∀ {saved : List Saved} {s : D.State},
    SharesSuit P s ctx shares → SavedSuit P s ctx saved → (setAside ctx shares saved).Keeps D
      (fun r s' => D.Later s s' ∧ SavedSuit P s' ctx r.1 ∧ Outcome.Sound (D.quality s') r.2) s
  | [], saved, s, _, hsaved => ⟨D.refl s, hsaved, trivial⟩
  | (t, v) :: rest, saved, s, hshares, hsaved => by
    have ht := (hshares _ List.mem_cons_self).1.left
    unfold DualShell.setAside
    refine Task.Keeps.bind (Task.Keeps.mono (hP.peek t.ref ht.left) fun r s' hr => ?_)
    split
    · exact ⟨hr.1, hsaved.later hr.1, hr.2⟩
    · obtain ⟨hs, hprior⟩ := hr
      have hv := (hshares _ List.mem_cons_self).2.mono (D.quality_mono hs)
      refine Task.Keeps.bind (Task.Keeps.mono (hP.write t.ref (ht.later hs) hv) fun r s'' hr => ?_)
      obtain ⟨hs' : D.Later _ _, hr⟩ := hr
      have hlater := D.trans hs hs'
      have hsaved' : SavedSuit P s'' ctx ((t.ref, _) :: saved) := List.forall_mem_cons.2
        ⟨⟨ht.later hlater, fun v hv => (hprior v hv).mono (D.quality_mono hs')⟩, hsaved.later hlater⟩
      split
      · exact ⟨hlater, hsaved', hr⟩
      · have hrest : SharesSuit P s'' ctx rest := SharesSuit.later (fun p hp => hshares p (List.mem_cons_of_mem _ hp)) hlater
        exact Task.Keeps.mono (setAside rest hrest hsaved') fun r s₃ hr => ⟨D.trans hlater hr.1, hr.2⟩

/-- Values that were set aside are put back, and a failure to do so is sound. -/
theorem putBack : (saved : List Saved) → ∀ {s : D.State}, SavedSuit P s ctx saved →
    (putBack ctx saved).Keeps D (fun o s' => D.Later s s' ∧ Outcome.Sound (D.quality s') o) s
  | [], s, _ => ⟨D.refl s, trivial⟩
  | (ref, prior) :: rest, s, hsaved => by
    obtain ⟨hsuits, hprior⟩ := hsaved _ List.mem_cons_self
    have hv : (prior.getD .empty).Sound (D.quality s) := by
      cases prior with
      | none => exact .empty
      | some v => exact hprior v rfl
    unfold DualShell.putBack
    refine Task.Keeps.bind (Task.Keeps.mono (hP.write ref hsuits hv) fun first s' hr => ?_)
    obtain ⟨hs : D.Later _ _, hfirst⟩ := hr
    have hrest : SavedSuit P s' ctx rest := SavedSuit.later (fun p hp => hsaved p (List.mem_cons_of_mem _ hp)) hs
    refine Task.Keeps.bind (Task.Keeps.mono (putBack rest hrest) fun others s'' hr => ?_)
    split
    · exact ⟨D.trans hs hr.1, Exception.Sound.mono (D.quality_mono hr.1) hfirst⟩
    · exact ⟨D.trans hs hr.1, hr.2⟩

end Placement.Lawful

namespace Evaluator.Behaves

variable {e : Evaluator} (he : e.Behaves P)
include he

/-- A target that the context suits may get a sound value. -/
theorem setTarget {t : Code.Target} {v : Value} (h : ctx.Suits P s (t.ref.changeMentions ++ Code.operandsMentions t.indices))
    (hv : v.Sound (D.quality s)) : (e.setTarget ctx t v).Safe D.aside anything s := by
  unfold Evaluator.setTarget
  split
  · exact he.write t.ref h.left hv
  · refine (he.keys t.indices h.right).bind fun ks s' hs hks => ?_
    exact he.edit t.ref (h.left.later hs) ⟨hks, hv.mono (D.quality_mono hs)⟩

/-- Several targets may get their values. -/
theorem setTargets : (shares : List (Code.Target × Value)) → ∀ {s : D.State}, SharesSuit P s ctx shares →
    (e.setTargets ctx shares).Safe D.aside anything s
  | [], _, _ => .pure trivial
  | (t, v) :: rest, s, h => by
    refine (he.setTarget (h _ List.mem_cons_self).1 (h _ List.mem_cons_self).2).andThen fun _ s' hs => ?_
    exact setTargets rest (SharesSuit.later (fun p hp => h p (List.mem_cons_of_mem _ hp)) hs)

/-- The values of an assignment are sound. -/
theorem assignValues {op : Code.Assign} (h : ctx.Suits P s (Code.operandsMentions op.values)) :
    (e.assignValues op ctx).Safe D.aside D.soundValues s := by
  refine (he.all op.values h).bind fun vs s' _ hvs => ?_
  exact Safe.andThen (Safe.ofPlain (.checkArity _ _)) fun _ s'' hs' => .pure fun v hv => (hvs v hv).mono (D.quality_mono hs')

/-- An assignment may be evaluated where the context suits what it mentions. -/
theorem evalAssign {op : Code.Assign} (h : ctx.Suits P s op.mentions) : (e.evalAssign op ctx).Safe D.aside anything s := by
  obtain ⟨targets, values⟩ := op
  refine (he.assignValues h.left).bind fun vs s' hs hvs => he.setTargets _ fun p hp => ?_
  obtain ⟨hmem, hsound⟩ := mem_shares hvs hp
  exact ⟨(h.right.later hs).sub (Code.mem_targetsMentions hmem), hsound⟩

/-- Temporary variables may be set, and what is set aside for each may be put back. -/
theorem setTemps : (temps : List Code.Assign) → ∀ {saved : List Saved} {s : D.State},
    ctx.Suits P s (Code.assignsMentions temps) → SavedSuit P s ctx saved → (e.setTemps ctx temps saved).Keeps D
      (fun r s' => D.Later s s' ∧ SavedSuit P s' ctx r.1 ∧ Outcome.Sound (D.quality s') r.2) s
  | [], saved, s, _, hsaved => ⟨D.refl s, hsaved, trivial⟩
  | ⟨targets, values⟩ :: ops, saved, s, h, hsaved => by
    unfold Evaluator.setTemps
    refine Task.Keeps.bind (Task.Keeps.mono (he.assignValues h.left.left) fun r s' hr => ?_)
    obtain ⟨hs : D.Later _ _, hr⟩ := hr
    split
    · exact ⟨hs, hsaved.later hs, hr⟩
    · rename_i vs
      have hshares : SharesSuit P s' ctx (targets.zip vs) := fun p hp =>
        ⟨(h.left.right.later hs).sub (Code.mem_targetsMentions (List.of_mem_zip hp).1), hr _ (List.of_mem_zip hp).2⟩
      refine Task.Keeps.bind (Task.Keeps.mono (he.setAside _ hshares (hsaved.later hs)) fun r s'' hr => ?_)
      obtain ⟨hs', hsaved', hout⟩ := hr
      have hlater := D.trans hs hs'
      split
      · exact ⟨hlater, hsaved', hout⟩
      · refine Task.Keeps.mono (setTemps ops (h.right.later hlater) hsaved') fun r s₃ hr => ?_
        exact ⟨D.trans hlater hr.1, hr.2⟩

/-- Temporary assignments around something that is safe from here on. -/
theorem withTemps {temps : List Code.Assign} (h : ctx.Suits P s (Code.assignsMentions temps)) {body : Eval Unit}
    (hbody : ∀ s', D.Later s s' → body.Safe D.aside anything s') : (e.withTemps temps ctx body).Safe D.aside anything s := by
  unfold Evaluator.withTemps
  split
  · exact hbody s (D.refl s)
  · refine Safe.bind (Safe.lift (he.setTemps temps h (List.forall_mem_nil _))) fun r s' hs hr => ?_
    obtain ⟨saved, ready⟩ := r
    obtain ⟨hsaved, hready⟩ := hr
    dsimp -zeta only
    extract_lets finish
    have hfinish : ∀ (outcome : Outcome) (s'' : D.State), D.Later s' s'' → Outcome.Sound (D.quality s'') outcome →
        (finish outcome).Safe D.aside anything s'' := by
      intro outcome s'' hs' hout
      refine Safe.bind (Safe.lift (he.putBack saved (hsaved.later hs'))) fun restored s₃ hs'' hrestored => ?_
      split
      · exact .ofOutcome hrestored
      · exact .throw (Exception.Sound.mono (D.quality_mono hs'') hout)
    split
    · exact (hbody s' hs).attempt_outcome.bind fun outcome s'' hs' hout => hfinish outcome s'' hs' hout
    · exact hfinish _ s' (D.refl s') hready

end Evaluator.Behaves

/-! ## Calls -/

/-- An option that is not taken is a plain failure. -/
theorem Quality.Plain.rejectOpts {q : Quality} (callee : String) (opts : List (String × Value)) :
    q.Plain (DualShell.rejectOpts callee opts) := by
  unfold DualShell.rejectOpts
  split <;> trivial

/-- The variables of a call hold the arguments. -/
theorem Code.Lambda.bind_sound {q : Quality} (op : Code.Lambda) {args : List Value} (h : Value.AllSound q args) :
    q.Yields (OptionsSound q) (op.bind args) := by
  unfold Code.Lambda.bind
  split
  · intro p hp
    rcases List.mem_append.1 hp with hp | hp
    · exact h _ (List.of_mem_zip hp).2
    · split at hp
      · cases List.mem_singleton.1 hp
        exact .list fun v hv => h v (List.mem_of_mem_drop hv)
      · cases hp
  · trivial

/-- The run of a program of the system has nothing to do with variables. -/
theorem runProgram_harmless {K : Course D} (name : String) (args : List Value) (bound : Nat) (ctx : Context) :
    (runProgram name args bound ctx).Harmless K := by
  intro s
  unfold runProgram
  have hargs : (D.quality s).Plain (programArguments args) :=
    (Quality.Yields.mapM (P := fun _ => True) args fun v _ => Quality.Plain.expectString v _).mono fun _ _ => trivial
  refine Safe.andThen (Safe.ofPlain hargs) fun args s' _ => ?_
  refine Safe.bind (Safe.ask_plain trivial trivial) fun launch s'' _ hlaunch => ?_
  refine Safe.andThen (Safe.ofPlain hlaunch) fun launch s₃ _ => ?_
  extract_lets stdio start
  have hstart : ∀ s, (start ()).Safe K anything s := by
    refine fun s => Safe.andThen (Safe.ask_plain trivial trivial) fun env s' _ => ?_
    refine (Tool.run_harmless _ _ _ s').andThen fun exit s'' _ => ?_
    split
    · exact .pure trivial
    · rename_i c hc
      refine .fail ?_
      unfold Exit.cause? at hc
      split at hc
      · nomatch hc
      · cases hc; trivial
      · split at hc <;> cases hc <;> trivial
  split
  · exact Safe.bind (P := fun _ _ => False) (.fail trivial) fun _ _ _ h => h.elim
  · exact hstart _

/-- An external program gets texts and yields bytes, which suit everybody. -/
theorem Evaluator.callProgram_harmless {K : Course D} (e : Evaluator) (name : String) (args : List Value)
    (opts : List (String × Value)) (ctx : Context) : (e.callProgram name args opts ctx).Harmless K :=
  fun _ => Safe.andThen (Safe.ofPlain (.rejectOpts _ _)) fun _ s' _ => runProgram_harmless _ _ _ _ s'

namespace Evaluator.Behaves

variable {e : Evaluator} (he : e.Behaves P)
include he

/-- A call of a closure runs its body in a new frame. -/
theorem callClosure {c : Closure} {args : List Value} {opts : List (String × Value)} (h : ctx.Suits P s [])
    (hc : (D.quality s).closure c) (hargs : Value.AllSound (D.quality s) args) :
    (e.callClosure c args opts ctx).Safe D.aside anything s := by
  unfold Evaluator.callClosure
  refine Safe.bind (Safe.ofExcept (Q := fun params s' => OptionsSound (D.quality s') params) (c.op.bind_sound hargs))
    fun params s' hs hparams => ?_
  refine Safe.andThen (Safe.ofPlain (.rejectOpts _ _)) fun _ s'' hs' => ?_
  have hlater := D.trans hs hs'
  have hvars : OptionsSound (D.quality s'') params := fun p hp => (hparams p hp).mono (D.quality_mono hs')
  refine (he.enter (h.later hlater) ((D.quality_mono hlater).closure c hc) hvars).bind fun frame s₃ _ hframe => ?_
  refine (he.block hframe).attempt.bind fun result s₄ _ hresult => ?_
  split
  · exact .pure trivial
  · split
    · exact .pure trivial
    · exact .throw hresult

/-- Calls are safe from here on. -/
theorem callsSafe (h : ctx.Suits P s []) : e.CallsSafe D.aside ctx s :=
  fun _ hs _ _ _ hv hargs hopts => he.call (h.later hs) hv hargs hopts

/-- A call of a sound value. -/
theorem callValue {v : Value} {args : List Value} {opts : List (String × Value)} (h : ctx.Suits P s [])
    (hv : v.Sound (D.quality s)) (hargs : Value.AllSound (D.quality s) args) (hopts : OptionsSound (D.quality s) opts) :
    (e.callValue v args opts ctx).Safe D.aside anything s := by
  unfold Evaluator.callValue
  split
  · exact he.callClosure h hv.of_closure hargs
  · split
    · exact invoke_safe (he.callsSafe h) _ hargs hopts
    · exact e.callProgram_harmless _ _ _ _ s
  · exact .fail trivial

/-- The values of the options of a call are sound. -/
theorem optValues : (opts : List (String × Code.Operand)) → ∀ {s : D.State}, ctx.Suits P s (Code.optsMentions opts) →
    (e.optValues ctx opts).Safe D.aside (fun opts s' => OptionsSound (D.quality s') opts) s
  | [], _, _ => .pure (List.forall_mem_nil _)
  | (name, op) :: rest, s, h => by
    refine (he.single h.left _).bind fun v s' hs hv => ?_
    refine (optValues rest (h.right.later hs)).bind fun opts s'' hs' hopts => .pure ?_
    exact List.forall_mem_cons.2 ⟨hv.mono (D.quality_mono hs'), hopts⟩

/-- What a head calls is safe for sound arguments from here on. -/
theorem callee {head : Code.Head} (h : ctx.Suits P s head.mentions) :
    (e.callee head ctx).Safe D.aside (fun run s' => ∀ args opts s'', D.Later s' s'' → Value.AllSound (D.quality s'') args →
      OptionsSound (D.quality s'') opts → (run args opts).Safe D.aside anything s'') s := by
  cases head with
  | function name ref =>
    refine (he.read ref h).bind fun v s' hs hv => ?_
    split
    · refine .pure fun args opts s'' hs' hargs _ => ?_
      exact he.callClosure (h.nil.later (D.trans hs hs')) ((D.quality_mono hs').closure _ hv.of_closure) hargs
    · exact .fail trivial
  | dynamic op =>
    refine (he.single h _).bind fun v s' hs hv => .pure fun args opts s'' hs' hargs hopts => ?_
    exact he.callValue (h.nil.later (D.trans hs hs')) (hv.mono (D.quality_mono hs')) hargs hopts
  | builtin b => exact .pure fun args opts s'' hs hargs hopts => invoke_safe (he.callsSafe (h.later hs)) _ hargs hopts
  | external name =>
    exact .pure fun args opts s'' _ _ _ => Evaluator.callProgram_harmless (K := D.aside) e name args opts ctx s''

/-- A call may be evaluated where the context suits what it mentions. -/
theorem evalCall {op : Code.Call} (h : ctx.Suits P s op.mentions) : (e.evalCall op ctx).Safe D.aside anything s := by
  obtain ⟨head, args, opts⟩ := op
  refine (he.callee h.left.left).bind fun run s' hs hrun => ?_
  refine (he.all args (h.left.right.later hs)).bind fun vs s'' hs' hvs => ?_
  refine (he.optValues opts (h.right.later (D.trans hs hs'))).bind fun os s₃ hs'' hos => ?_
  exact hrun vs os s₃ (D.trans hs' hs'') (fun v hv => (hvs v hv).mono (D.quality_mono hs'')) hos

end Evaluator.Behaves

/-! ## Special forms -/

/-- Modules are loaded safely in surroundings that are in order. -/
def Placement.LoadsSafely (P : Placement D) : Prop :=
  ∀ {e : Evaluator} {spec : String} {ctx : Context} {s : D.State}, e.Behaves P → ctx.Suits P s [] →
    (e.loadModule spec ctx).Safe D.aside anything s

namespace Evaluator.Behaves

variable {e : Evaluator} (he : e.Behaves P)
include he

/-- A choice between branches evaluates conditions and one body. -/
theorem branch {otherwise : Option Code.Block} : (branches : List (Code.Operand × Code.Block)) → ∀ {s : D.State},
    ctx.Suits P s (Code.branchesMentions branches ++ Code.optionalMentions otherwise) →
    (e.branch otherwise ctx branches).Safe D.aside anything s
  | [], _, h => he.optional h
  | (condition, body) :: rest, s, h => by
    unfold Evaluator.branch
    refine (he.holds h.left.left.left).andThen fun holds s' hs => ?_
    split
    · exact he.block (h.left.left.right.later hs)
    · refine branch rest ((h.sub fun m hm => ?_).later hs)
      rcases List.mem_append.1 hm with hm | hm
      · exact List.mem_append_left _ (List.mem_append_right _ hm)
      · exact List.mem_append_right _ hm

/-- A loop over a condition evaluates the condition and the body again and again. -/
theorem whileRounds {condition : Code.Operand} {body : Code.Block} : (rounds : Nat) → ∀ {ran : Bool} {s : D.State},
    ctx.Suits P s condition.mentions → ctx.Suits P s body.mentions →
    (e.whileRounds condition body ctx rounds ran).Safe D.aside anything s
  | 0, _, _, _, _ => .exhausted
  | rounds + 1, ran, s, hcondition, hbody => by
    unfold Evaluator.whileRounds
    refine (he.holds hcondition).andThen fun holds s' hs => ?_
    split
    · refine (he.block (hbody.later hs)).round.andThen fun step s'' hs' => ?_
      split
      · exact whileRounds rounds (hcondition.later (D.trans hs hs')) (hbody.later (D.trans hs hs'))
      · exact .pure trivial
    · exact .pure trivial

/-- A loop over items gives sound items to its variable. -/
theorem forItems {ref : Ref} {body : Code.Block} {items : List Value} (href : ctx.Suits P s ref.changeMentions)
    (hbody : ctx.Suits P s body.mentions) (hitems : Value.AllSound (D.quality s) items) :
    (e.forItems ref body ctx items).Safe D.aside anything s := by
  refine visitItems_safe ?_ hitems
  intro item s' hs hitem
  exact (he.write ref (href.later hs) hitem).andThen fun _ s'' hs' => (he.block (hbody.later (D.trans hs hs'))).round

/-- A handler gets a sound failure. -/
theorem handle {h : Code.Handler} {ex : Exception} (hsuits : ctx.Suits P s (Code.handlerMentions (some h)))
    (hex : ex.Sound (D.quality s)) : (e.handle h ex ctx).Safe D.aside anything s := by
  obtain ⟨ref, body⟩ := h
  unfold Evaluator.handle
  cases ref with
  | none => exact he.block hsuits
  | some ref =>
    refine Safe.andThen (Safe.ask_plain trivial trivial) fun identity s' hs => ?_
    have hcaught := Exception.Sound.mono (D.quality_mono hs) hex
    refine (he.write ref (hsuits.left.later hs) (.exception hcaught)).andThen fun _ s'' hs' => ?_
    exact he.block (hsuits.right.later (D.trans hs hs'))

/-- What follows a protected body is its handler or its third part. -/
theorem afterBody {handler : Option Code.Handler} {otherwise : Option Code.Block} {o : Outcome}
    (hhandler : ctx.Suits P s (Code.handlerMentions handler)) (hotherwise : ctx.Suits P s (Code.optionalMentions otherwise))
    (ho : Outcome.Sound (D.quality s) o) : (e.afterBody handler otherwise ctx o).Safe D.aside anything s := by
  unfold Evaluator.afterBody
  split
  · exact he.optional hotherwise
  · split
    · split
      · exact .throw ho
      · exact he.handle hhandler ho
    · exact .throw ho

/-- A protected form is its body, what follows it, and its last part. -/
theorem attemptForm {body : Code.Block} {handler : Option Code.Handler} {otherwise finally_ : Option Code.Block}
    (hbody : ctx.Suits P s body.mentions) (hhandler : ctx.Suits P s (Code.handlerMentions handler))
    (hotherwise : ctx.Suits P s (Code.optionalMentions otherwise))
    (hfinally : ctx.Suits P s (Code.optionalMentions finally_)) :
    (e.attemptForm body handler otherwise finally_ ctx).Safe D.aside anything s := by
  unfold Evaluator.attemptForm
  refine (he.block hbody).attempt_outcome.bind fun ended s' hs hended => ?_
  refine (he.afterBody (hhandler.later hs) (hotherwise.later hs) hended).attempt_outcome.bind fun outcome s'' hs' hout => ?_
  refine (he.optional (hfinally.later (D.trans hs hs'))).andThen fun _ s₃ hs'' => ?_
  exact .ofOutcome (Outcome.Sound.mono (D.quality_mono hs'') hout)

/-- The value of `and`, `or` and `coalesce` is that of an operand. -/
theorem shortCircuit (decides : Bool) : (ops : List Code.Operand) → ∀ {last : Value} {s : D.State},
    ctx.Suits P s (Code.operandsMentions ops) → last.Sound (D.quality s) →
    (e.shortCircuit decides ctx last ops).Safe D.aside anything s
  | [], last, _, _, hlast => ctx.put_safe hlast
  | op :: ops, last, s, h, hlast => by
    unfold Evaluator.shortCircuit
    refine (he.operand h.left).bind fun vs s' hs hvs => ?_
    split
    · rename_i v hv
      exact ctx.put_safe (hvs v (List.mem_of_find?_eq_some hv))
    · refine shortCircuit decides ops (h.right.later hs) ?_
      cases hl : vs.getLast? with
      | none => simpa [List.getLastD_eq_getLast?, hl] using hlast.mono (D.quality_mono hs)
      | some v => simpa [List.getLastD_eq_getLast?, hl] using hvs v (List.mem_of_getLast? hl)

/-- Deletions take away what they name. -/
theorem delete : (ds : List Code.Deletion) → ∀ {s : D.State}, ctx.Suits P s (Code.deletionsMentions ds) →
    (e.delete ctx ds).Safe D.aside anything s
  | [], _, _ => .pure trivial
  | ⟨ref, indices⟩ :: ds, s, h => by
    have hrest : ∀ s', D.Later s s' → (e.delete ctx ds).Safe D.aside anything s' := fun s' hs => delete ds (h.right.later hs)
    have hhead := h.left
    unfold Evaluator.delete
    dsimp only at hhead ⊢
    by_cases hempty : indices.isEmpty
    · rw [if_pos hempty]
      split
      · exact (he.unbind _ h.nil).andThen fun _ s' hs => hrest s' hs
      · exact hrest s (D.refl s)
    · rw [if_neg hempty] at hhead ⊢
      refine (he.keys indices hhead.right).bind fun ks s' hs hks => ?_
      have hremove : (ref.edit ctx (.remove ks)).Safe D.aside anything s' := he.edit ref (hhead.left.later hs) hks
      exact hremove.andThen fun _ s'' hs' => hrest s'' (D.trans hs hs')

/-- A special form may be evaluated where the context suits what it mentions, if modules may be loaded. -/
theorem evalSpecial (hload : P.LoadsSafely) {op : Code.Special} (h : ctx.Suits P s op.mentions) :
    (e.evalSpecial op ctx).Safe D.aside anything s := by
  cases op with
  | branch branches otherwise => exact he.branch branches h
  | whileLoop condition body otherwise =>
    refine (he.whileRounds _ h.left.left h.left.right).andThen fun ran s' hs => ?_
    split
    · exact .pure trivial
    · exact he.optional (h.right.later hs)
  | forLoop ref container body otherwise =>
    refine (he.single h.left.left.left _).bind fun v s' hs hv => ?_
    refine Safe.bind (Safe.ofExcept (Q := D.soundValues) hv.iterate) fun items s'' hs' hitems => ?_
    have hlater := D.trans hs hs'
    split
    · exact he.optional (h.right.later hlater)
    · exact he.forItems (h.left.left.right.later hlater) (h.left.right.later hlater) hitems
  | attempt body handler otherwise finally_ => exact he.attemptForm h.left.left.left h.left.left.right h.left.right h.right
  | define ref op =>
    refine (he.close _ h.right).bind fun v s' hs hv => ?_
    exact he.write ref (h.left.later hs) hv
  | conjunction operands => exact he.shortCircuit _ operands h (.bool _)
  | disjunction operands => exact he.shortCircuit _ operands h (.bool _)
  | delete targets => exact he.delete targets h
  | load spec ref => exact (hload he h.nil).andThen fun ns s' hs => he.write ref (h.later hs) (.ns ns)

end Evaluator.Behaves

/-! ## Modules -/

/-- Requests about the place of a module or its text. -/
def Request.ConcernsModule : Request → Prop
  | .findModule .. | .claimModule .. | .fetchModule .. | .settleModule .. => True
  | _ => False

/-- A module that cannot be found is a plain failure. -/
theorem ModuleError.mapError_plain {α : Type} (x : Except ModuleError α) (q : Quality) :
    q.Plain (x.mapError ModuleError.cause) := by
  cases x <;> trivial

/-- A contract that makes nothing of modules, under which the body of each may run in a frame of its own. -/
structure Placement.IgnoresModules (P : Placement D) : Prop where
  free : ∀ s (r : Request), r.ConcernsModule → D.Needs s r ∧ ∀ x s', D.Tells s r x s' → D.Later s s'
  enter : ∀ {key : String} {chunk : Source.Chunk} {body : Code.Block} {scope : Scope} {ctx : Context} {s : D.State},
    chunk.compile key (.ofGlobals []) = (.ok body, scope) → ctx.Suits P s [] →
    (ask (.activate none [] (ctx.imports ++ [key]))).Safe D.aside
    (fun f s' => (ctx.enterModule f key).Suits P s' body.mentions) s

namespace Placement.IgnoresModules

variable (hP : P.IgnoresModules) {e : Evaluator} (he : e.Behaves P)
include hP

/-- What is asked in the loading of a module is allowed there. -/
theorem ask {r : Request} (hr : r.ConcernsModule) : (ask r).Safe D.aside anything s :=
  .ask (hP.free _ _ hr).1 fun x s' hx => ⟨(hP.free _ _ hr).2 x s' hx, trivial⟩

include he

/-- The body of a module runs in a frame of its own, which suits what it mentions. -/
theorem runModule {spec key : String} {chunk : Source.Chunk} {body : Code.Block} {scope : Scope}
    (hbody : chunk.compile key (.ofGlobals []) = (.ok body, scope)) (h : ctx.Suits P s []) :
    (e.runModule spec key body ctx).Safe D.aside anything s := by
  unfold Evaluator.runModule
  refine (hP.enter hbody h).bind fun frame s' _ hframe => ?_
  refine (he.block hframe).attempt.bind fun result s'' _ hresult => ?_
  split
  · exact Safe.trivially (Safe.ask_plain trivial trivial)
  · split
    · exact .fail trivial
    · exact .throw hresult

/-- A module may be evaluated anywhere. -/
theorem evalModule {spec key : String} (h : ctx.Suits P s []) : (e.evalModule spec key ctx).Safe D.aside anything s := by
  unfold Evaluator.evalModule
  refine Safe.andThen (hP.ask trivial) fun fetched s' hs => ?_
  refine (Safe.ofPlain (ModuleError.mapError_plain fetched _)).andThen fun chunk s'' hs' => ?_
  rcases hcompiled : chunk.compile key (Scope.ofGlobals []) with ⟨compiled, scope⟩
  cases compiled with
  | ok body => exact hP.runModule he hcompiled (h.later (D.trans hs hs'))
  | error err => exact .fail trivial

/-- The loading of a module may be begun anywhere. -/
theorem initModule {spec key : String} {place : PlaceId} (h : ctx.Suits P s []) :
    (e.initModule spec key place ctx).Safe D.aside anything s := by
  unfold Evaluator.initModule
  refine Safe.andThen (hP.ask trivial) fun claimed s' hs => ?_
  split
  · exact .pure trivial
  · refine (hP.evalModule he (h.later hs)).attempt.bind fun result s'' _ hresult => ?_
    split
    · exact Safe.andThen (hP.ask trivial) fun _ _ _ => .pure trivial
    · exact Safe.andThen (hP.ask trivial) fun _ s₃ hs' => .throw (Exception.Sound.mono (D.quality_mono hs') hresult)

omit he

/-- Under a contract that makes nothing of modules, they may be loaded. -/
theorem loadsSafely : P.LoadsSafely := by
  intro e spec ctx s he h
  unfold Evaluator.loadModule
  refine Safe.andThen (Safe.ask_plain trivial trivial) fun resolved s' hs => ?_
  refine (Safe.ofPlain (ModuleError.mapError_plain resolved _)).andThen fun key s'' hs' => ?_
  split
  · exact .fail trivial
  · exact Safe.andThen (hP.ask trivial) fun place s₃ hs'' => hP.initModule he (h.later (D.trans (D.trans hs hs') hs''))

end Placement.IgnoresModules

end DualShell
