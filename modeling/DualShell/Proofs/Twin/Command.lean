import DualShell.Eval.Form
import DualShell.Proofs.Eval.Command
import DualShell.Proofs.Twin.Builtin
import DualShell.Proofs.Twin.Tool

/-!
# Commands under other numbers

Assignments, calls and special forms in renamed surroundings are twins of themselves if their parts are. A frame that a
closure or a module runs in has the same number everywhere, so only the descriptors of the surroundings differ.
-/

namespace DualShell

open Eval

variable {S : Scheme} {ctx : Context}

/-! ## Assignments -/

/-- The values that targets get are lawful. -/
abbrev SharesLawful (L : Law) (shares : List (Code.Target × Value)) : Prop := ∀ p ∈ shares, L.value p.2

/-- What variables held before is lawful. -/
abbrev SavedLawful (L : Law) (saved : List Saved) : Prop := ∀ p ∈ saved, ∀ v, p.2 = some v → L.value v

/-- Shares of lawful values are lawful, the list of those that are left over among them. -/
theorem shares_lawful {L : Law} : (ts : List Code.Target) → {vs : List Value} → L.values vs → SharesLawful L (shares ts vs)
  | [], _, _ => List.forall_mem_nil _
  | t :: ts, vs, h => by
    have hnone : SharesLawful L (shares ts []) := shares_lawful ts (List.forall_mem_nil _)
    unfold shares
    split
    · exact List.forall_mem_cons.2 ⟨L.list.2 h, hnone⟩
    · split
      · obtain ⟨hv, hvs⟩ := List.forall_mem_cons.1 h
        exact List.forall_mem_cons.2 ⟨hv, shares_lawful ts hvs⟩
      · exact List.forall_mem_cons.2 ⟨L.empty, hnone⟩

/-- Variables are set for a while, and what they held is kept. -/
theorem setAside_twin : (shares : List (Code.Target × Value)) → {saved : List Saved} → SharesLawful S.law shares →
    SavedLawful S.law saved →
    Task.Steady S (Same fun r => SavedLawful S.law r.1 ∧ S.law.outcome r.2) (setAside ctx shares saved)
      (setAside (ctx.rename S.toRenaming) shares saved)
  | [], _, _, hsaved => .pure ⟨rfl, hsaved, Law.outcome_ok⟩
  | (t, v) :: rest, saved, hshares, hsaved => by
    obtain ⟨hv, hrest⟩ := List.forall_mem_cons.1 hshares
    refine Task.Steady.bind t.ref.peek_twin fun r _ hr => ?_
    cases hr with
    | error h => exact .pure ⟨rfl, hsaved, Law.outcome_error.2 h⟩
    | ok h =>
      obtain ⟨heq, hprior⟩ := h
      subst heq
      have hsaved' : SavedLawful S.law ((t.ref, _) :: saved) := List.forall_mem_cons.2 ⟨hprior, hsaved⟩
      refine Task.Steady.bind (t.ref.write_twin hv) fun r _ hr => ?_
      cases hr with
      | error h => exact .pure ⟨rfl, hsaved', Law.outcome_error.2 h⟩
      | ok => exact setAside_twin rest hrest hsaved'

/-- Values are put back in variables, which both machines hold alike. -/
theorem putBack_twin : (saved : List Saved) → SavedLawful S.law saved →
    Task.Steady S (Same S.law.outcome) (putBack ctx saved) (putBack (ctx.rename S.toRenaming) saved)
  | [], _ => .pure ⟨rfl, Law.outcome_ok⟩
  | (ref, prior) :: rest, h => by
    obtain ⟨hprior, hrest⟩ := List.forall_mem_cons.1 h
    have hv : S.law.value (prior.getD .empty) := by
      cases prior with
      | none => exact S.law.empty
      | some v => exact hprior v rfl
    refine Task.Steady.bind (ref.write_twin hv) fun r _ hr => ?_
    refine Task.Steady.bind (putBack_twin rest hrest) fun others _ ⟨heq, hothers⟩ => ?_
    subst heq
    cases hr with
    | error h => exact .pure ⟨rfl, Law.outcome_error.2 h⟩
    | ok => exact .pure ⟨rfl, hothers⟩

namespace Evaluator.Twins

variable {e : Evaluator} (he : e.Twins S) (hctx : ctx.Usable S.toRenaming)
include he hctx

/-- A target gets its value alike. -/
theorem setTarget (t : Code.Target) {v : Value} (hv : S.law.value v) :
    Twin S anyway (e.setTarget ctx t v) (e.setTarget (ctx.rename S.toRenaming) t v) := by
  unfold Evaluator.setTarget
  split
  · exact t.ref.write_twin hv
  · refine (he.keys hctx t.indices).bind fun ks _ ⟨heq, hks⟩ => ?_
    subst heq
    exact t.ref.edit_twin ⟨hks, hv⟩

theorem setTargets : (shares : List (Code.Target × Value)) → SharesLawful S.law shares →
    Twin S anyway (e.setTargets ctx shares) (e.setTargets (ctx.rename S.toRenaming) shares)
  | [], _ => .pure rfl
  | (t, v) :: rest, h => by
    obtain ⟨hv, hrest⟩ := List.forall_mem_cons.1 h
    exact (he.setTarget hctx t hv).andThen fun _ => setTargets rest hrest

/-- The values of an assignment are the same. -/
theorem assignValues (op : Code.Assign) :
    Twin S (Same S.law.values) (e.assignValues op ctx) (e.assignValues op (ctx.rename S.toRenaming)) := by
  refine (he.all hctx op.values).bind fun vs _ ⟨heq, hvs⟩ => ?_
  subst heq
  exact (Twin.plainly _).andThen fun _ => .pure ⟨rfl, hvs⟩

/-- An assignment does the same on both machines. -/
theorem evalAssign (op : Code.Assign) : Twin S anyway (e.evalAssign op ctx) (e.evalAssign op (ctx.rename S.toRenaming)) := by
  refine (he.assignValues hctx op).bind fun vs _ ⟨heq, hvs⟩ => ?_
  subst heq
  exact he.setTargets hctx _ (shares_lawful op.targets hvs)

/-- Temporary variables are set alike, and the same values are set aside. -/
theorem setTemps : (temps : List Code.Assign) → {saved : List Saved} → SavedLawful S.law saved →
    Task.Steady S (Same fun r => SavedLawful S.law r.1 ∧ S.law.outcome r.2) (e.setTemps ctx temps saved)
      (e.setTemps (ctx.rename S.toRenaming) temps saved)
  | [], _, hsaved => .pure ⟨rfl, hsaved, Law.outcome_ok⟩
  | op :: ops, saved, hsaved => by
    refine Task.Steady.bind (he.assignValues hctx op) fun r _ hr => ?_
    cases hr with
    | error h => exact .pure ⟨rfl, hsaved, Law.outcome_error.2 h⟩
    | ok h =>
      obtain ⟨heq, hvs⟩ := h
      subst heq
      have hshares : SharesLawful S.law (op.targets.zip _) := fun p hp => hvs _ (List.of_mem_zip hp).2
      refine Task.Steady.bind (setAside_twin _ hshares hsaved) fun _ r ⟨heq, hr⟩ => ?_
      subst heq
      obtain ⟨saved, result⟩ := r
      cases result with
      | error ex => exact .pure ⟨rfl, hr⟩
      | ok => exact setTemps ops hr.1

/-- Temporary assignments around a body. -/
theorem withTemps (temps : List Code.Assign) {body body' : Eval Unit} (hbody : Twin S anyway body body') :
    Twin S anyway (e.withTemps temps ctx body) (e.withTemps temps (ctx.rename S.toRenaming) body') := by
  unfold Evaluator.withTemps
  split
  · exact hbody
  · refine (Twin.lift (he.setTemps hctx temps (List.forall_mem_nil _))).bind fun _ r ⟨heq, hsaved, hready⟩ => ?_
    subst heq
    obtain ⟨saved, ready⟩ := r
    dsimp -zeta only
    extract_lets finish finish'
    have hfinish : ∀ outcome, S.law.outcome outcome → Twin S anyway (finish outcome) (finish' outcome) := by
      intro outcome hout
      refine (Twin.lift (putBack_twin saved hsaved)).bind fun restored _ ⟨heq, hrestored⟩ => ?_
      subst heq
      split
      · exact .ofOutcome hrestored
      · exact .throw (Law.outcome_error.1 hout)
    cases ready with
    | ok =>
      refine hbody.attempt_outcome.bind fun outcome _ ⟨heq, hout⟩ => ?_
      subst heq
      exact hfinish _ hout
    | error ex => exact hfinish _ hready

end Evaluator.Twins

/-! ## Calls -/

/-- The variables of a call hold the arguments. -/
theorem Code.Lambda.bind_lawful {L : Law} (op : Code.Lambda) {args : List Value} (h : L.values args) :
    GivesOnly (fun vars => ∀ p ∈ vars, L.value p.2) (op.bind args) := by
  unfold Code.Lambda.bind
  split
  · refine .ok (List.forall_mem_append.2 ⟨fun p hp => h _ (List.of_mem_zip hp).2, fun p hp => ?_⟩)
    split at hp
    · cases List.mem_singleton.1 hp
      exact L.list.2 fun v hv => h v (List.mem_of_mem_drop hv)
    · cases hp
  · exact .error

section Calls

variable (hctx : ctx.Usable S.toRenaming)
include hctx

/-- A program gets the same texts and the streams of the call, and does the same with them. -/
theorem runProgram_twin (name : String) (args : List Value) (bound : Nat) :
    Twin S anyway (runProgram name args bound ctx) (runProgram name args bound (ctx.rename S.toRenaming)) := by
  unfold runProgram
  refine (Twin.plainly _).andThen fun args => ?_
  refine Twin.bind (.ask (r := .program ctx.kernel name) trivial fun _ _ => rfl) fun launch _ hlaunch => ?_
  cases hlaunch
  refine (Twin.plainly launch).andThen fun launch => ?_
  dsimp only
  split
  · exact Twin.bind (P := fun _ _ => False) (.fail _) fun _ _ h => h.elim
  · refine Twin.bind (.ask (r := .environment ctx.kernel) trivial fun _ _ => rfl) fun env _ henv => ?_
    cases henv
    have hstdio : Stdio.Usable S.toRenaming ⟨ctx.descriptors.input? 0, ctx.descriptors.output? 1,
      ctx.descriptors.output? 2⟩ :=
      ⟨fun _ ho => hctx.descriptors.output? ho, fun _ ho => hctx.descriptors.output? ho⟩
    rw [Context.rename_descriptors, Descriptors.input?_rename, Descriptors.output?_rename, Descriptors.output?_rename]
    refine (Tool.run_twin programDepth launch.tool
      (p := { name := launch.name, args := launch.front ++ args, env, stdio := _, kernel := ctx.kernel, bound })
      hstdio).andThen fun exit => ?_
    split
    · exact .pure rfl
    · exact .fail _

/-- A call of an external program comes to the same. -/
theorem Evaluator.callProgram_twin (e : Evaluator) (name : String) (args : List Value) (opts : List (String × Value)) :
    Twin S anyway (e.callProgram name args opts ctx) (e.callProgram name args opts (ctx.rename S.toRenaming)) :=
  (Twin.plainly _).andThen fun _ => runProgram_twin hctx _ _ _

end Calls

namespace Evaluator.Twins

variable {e : Evaluator} (he : e.Twins S) (hctx : ctx.Usable S.toRenaming)
include he hctx

/-- A call of a closure runs its body in a new frame. -/
theorem callClosure (c : Closure) {args : List Value} (opts : List (String × Value)) (hargs : S.law.values args) :
    Twin S anyway (e.callClosure c args opts ctx) (e.callClosure c args opts (ctx.rename S.toRenaming)) := by
  unfold Evaluator.callClosure
  refine (Twin.ofExcept (c.op.bind_lawful hargs)).bind fun _ params ⟨heq, hparams⟩ => ?_
  subst heq
  refine (Twin.plainly _).andThen fun _ => ?_
  refine Twin.bind (.ask (r := .activate (some c.home) params ctx.imports) hparams fun _ _ => rfl) fun frame _ hframe => ?_
  cases hframe
  have hblock : Twin S anyway (e.block c.op.body (ctx.enter frame c.captures))
      (e.block c.op.body ((ctx.rename S.toRenaming).enter frame c.captures)) :=
    have henter : (ctx.enter frame c.captures).Usable S.toRenaming := ⟨hctx.descriptors, hctx.home⟩
    he.block c.op.body henter
  refine hblock.attempt_outcome.bind fun result _ ⟨heq, hresult⟩ => ?_
  subst heq
  split
  · exact .pure rfl
  · split
    · exact .pure rfl
    · exact .throw (Law.outcome_error.1 hresult)

/-- A call of a value. -/
theorem callValue {v : Value} {args : List Value} {opts : List (String × Value)} (hargs : S.law.values args)
    (hopts : ∀ o ∈ opts, S.law.value o.2) :
    Twin S anyway (e.callValue v args opts ctx) (e.callValue v args opts (ctx.rename S.toRenaming)) := by
  unfold Evaluator.callValue
  split
  · exact he.callClosure hctx _ opts hargs
  · split
    · exact he.invoke hctx _ hargs hopts
    · exact e.callProgram_twin hctx _ _ _
  · exact .fail _

/-- The values of options are the same. -/
theorem optValues : (opts : List (String × Code.Operand)) →
    Twin S (Same fun opts => ∀ o ∈ opts, S.law.value o.2) (e.optValues ctx opts) (e.optValues (ctx.rename S.toRenaming) opts)
  | [] => .pure ⟨rfl, List.forall_mem_nil _⟩
  | (name, op) :: rest => by
    refine (he.single hctx op _).bind fun v _ ⟨heq, hv⟩ => ?_
    subst heq
    refine (optValues rest).bind fun opts _ ⟨heq, hopts⟩ => ?_
    subst heq
    exact .pure ⟨rfl, List.forall_mem_cons.2 ⟨hv, hopts⟩⟩

/-- What a head calls is a twin of itself for lawful arguments. -/
theorem callee (head : Code.Head) :
    Twin S (fun run run' => ∀ args opts, S.law.values args → (∀ o ∈ opts, S.law.value o.2) →
      Twin S anyway (run args opts) (run' args opts))
      (e.callee head ctx) (e.callee head (ctx.rename S.toRenaming)) := by
  cases head with
  | function name ref =>
    refine ref.read_twin.bind fun v _ ⟨heq, _⟩ => ?_
    subst heq
    split
    · exact .pure fun args opts hargs _ => he.callClosure hctx _ opts hargs
    · exact .fail _
  | dynamic op =>
    refine (he.single hctx op _).bind fun v _ ⟨heq, _⟩ => ?_
    subst heq
    exact .pure fun args opts hargs hopts => he.callValue hctx hargs hopts
  | builtin b => exact .pure fun args opts hargs hopts => he.invoke hctx b hargs hopts
  | external name => exact .pure fun args opts _ _ => e.callProgram_twin hctx name args opts

/-- A call does the same, whatever is called. -/
theorem evalCall (op : Code.Call) : Twin S anyway (e.evalCall op ctx) (e.evalCall op (ctx.rename S.toRenaming)) := by
  refine (he.callee hctx op.head).bind fun run run' hrun => ?_
  refine (he.all hctx op.args).bind fun vs _ ⟨heq, hvs⟩ => ?_
  subst heq
  refine (he.optValues hctx op.opts).bind fun opts _ ⟨heq, hopts⟩ => ?_
  subst heq
  exact hrun _ _ hvs hopts

/-! ## Special forms -/

/-- The same branch is taken. -/
theorem branch (otherwise : Option Code.Block) : (branches : List (Code.Operand × Code.Block)) →
    Twin S anyway (e.branch otherwise ctx branches) (e.branch otherwise (ctx.rename S.toRenaming) branches)
  | [] => he.optional hctx otherwise
  | (condition, body) :: rest => by
    unfold Evaluator.branch
    refine (he.holds hctx condition).andThen fun holds => ?_
    split
    · exact he.block body hctx
    · exact branch otherwise rest

/-- The loop goes round as often. -/
theorem whileRounds (condition : Code.Operand) (body : Code.Block) (rounds : Nat) (ran : Bool) :
    Twin S anyway (e.whileRounds condition body ctx rounds ran)
    (e.whileRounds condition body (ctx.rename S.toRenaming) rounds ran) := by
  induction rounds generalizing ran with
  | zero => exact .exhausted
  | succ rounds ih =>
    unfold Evaluator.whileRounds
    refine (he.holds hctx condition).andThen fun holds => ?_
    split
    · refine (he.block body hctx).round.andThen fun step => ?_
      cases step with
      | next => exact ih true
      | stop => exact .pure rfl
    · exact .pure rfl

/-- The items are gone through alike. -/
theorem forItems (ref : Ref) (body : Code.Block) {items : List Value} (hitems : S.law.values items) :
    Twin S anyway (e.forItems ref body ctx items) (e.forItems ref body (ctx.rename S.toRenaming) items) :=
  visitItems_twin (fun _ hitem => (ref.write_twin hitem).andThen fun _ => (he.block body hctx).round) hitems

/-- A handler gets the same failure. -/
theorem handle (h : Code.Handler) {ex : Exception} (hex : S.law.failure ex) :
    Twin S anyway (e.handle h ex ctx) (e.handle h ex (ctx.rename S.toRenaming)) := by
  obtain ⟨ref, body⟩ := h
  unfold Evaluator.handle
  cases ref with
  | none => exact he.block body hctx
  | some ref =>
    refine Twin.ask_identity.andThen fun identity => ?_
    exact (ref.write_twin (S.law.exception.2 hex)).andThen fun _ => he.block body hctx

/-- What follows a protected body is the same part. -/
theorem afterBody (handler : Option Code.Handler) (otherwise : Option Code.Block) {o : Outcome} (ho : S.law.outcome o) :
    Twin S anyway (e.afterBody handler otherwise ctx o) (e.afterBody handler otherwise (ctx.rename S.toRenaming) o) := by
  unfold Evaluator.afterBody
  split
  · exact he.optional hctx otherwise
  · have hex := Law.outcome_error.1 ho
    split
    · split
      · exact .throw hex
      · exact he.handle hctx _ hex
    · exact .throw hex

/-- A protected form does the same in all its parts. -/
theorem attemptForm (body : Code.Block) (handler : Option Code.Handler) (otherwise finally_ : Option Code.Block) :
    Twin S anyway (e.attemptForm body handler otherwise finally_ ctx)
      (e.attemptForm body handler otherwise finally_ (ctx.rename S.toRenaming)) := by
  unfold Evaluator.attemptForm
  refine (he.block body hctx).attempt_outcome.bind fun ended _ ⟨heq, hended⟩ => ?_
  subst heq
  refine (he.afterBody hctx handler otherwise hended).attempt_outcome.bind fun outcome _ ⟨heq, hout⟩ => ?_
  subst heq
  exact (he.optional hctx finally_).andThen fun _ => .ofOutcome hout

/-- The same operand decides. -/
theorem shortCircuit (decides : Bool) : (ops : List Code.Operand) → {last : Value} → S.law.value last →
    Twin S anyway (e.shortCircuit decides ctx last ops) (e.shortCircuit decides (ctx.rename S.toRenaming) last ops)
  | [], _, hlast => ctx.put_twin hctx hlast
  | op :: ops, last, hlast => by
    unfold Evaluator.shortCircuit
    refine (he.operand op hctx).bind fun vs _ h => ?_
    obtain ⟨heq, hvs⟩ := h
    subst heq
    split
    · rename_i hv
      exact ctx.put_twin hctx (hvs _ (List.mem_of_find?_eq_some hv))
    · refine shortCircuit decides ops ?_
      rw [List.getLastD_eq_getLast?]
      cases hl : List.getLast? _ with
      | none => exact hlast
      | some v => exact hvs v (List.mem_of_getLast? hl)

theorem delete : (ds : List Code.Deletion) → Twin S anyway (e.delete ctx ds) (e.delete (ctx.rename S.toRenaming) ds)
  | [] => .pure rfl
  | ⟨ref, indices⟩ :: ds => by
    have hrest : Twin S anyway (e.delete ctx ds) (e.delete (ctx.rename S.toRenaming) ds) := delete ds
    unfold Evaluator.delete
    dsimp only
    split
    · split
      · rename_i name
        have hunbind : Twin S anyway (Eval.ask (.unbind ctx.frame name)) (Eval.ask (.unbind ctx.frame name)) :=
          (Twin.ask (r := .unbind ctx.frame name) trivial fun _ _ => rfl).mono fun _ _ _ => rfl
        exact hunbind.andThen fun _ => hrest
      · exact hrest
    · refine (he.keys hctx indices).bind fun _ ks ⟨heq, hks⟩ => ?_
      subst heq
      have hremove : (Edit.remove ks).Lawful S.law := hks
      exact (ref.edit_twin hremove).andThen fun _ => hrest

/-! ## Modules -/

/-- The body of a module runs in a frame of the same number. -/
theorem runModule (spec key : String) (body : Code.Block) :
    Twin S anyway (e.runModule spec key body ctx) (e.runModule spec key body (ctx.rename S.toRenaming)) := by
  unfold Evaluator.runModule
  refine Twin.bind (.ask (r := .activate none [] (ctx.imports ++ [key])) (List.forall_mem_nil _) fun _ _ => rfl)
    fun frame _ hframe => ?_
  cases hframe
  have hblock :
    Twin S anyway (e.block body (ctx.enterModule frame key))
    (e.block body ((ctx.rename S.toRenaming).enterModule frame key)) :=
    have henter : (ctx.enterModule frame key).Usable S.toRenaming := ⟨hctx.descriptors, hctx.home⟩
    he.block body henter
  refine hblock.attempt_outcome.bind fun result _ ⟨heq, hresult⟩ => ?_
  subst heq
  split
  · exact (Twin.ask (r := .freeze spec frame) trivial fun _ _ => rfl).mono fun _ _ h => eq_of_heq h
  · split
    · exact .fail _
    · exact .throw (Law.outcome_error.1 hresult)

/-- A module is fetched alike and resolves to the same code. -/
theorem evalModule (spec key : String) :
    Twin S anyway (e.evalModule spec key ctx) (e.evalModule spec key (ctx.rename S.toRenaming)) := by
  unfold Evaluator.evalModule
  refine Twin.bind (.ask (r := .fetchModule key) trivial fun _ _ => rfl) fun fetched _ hfetched => ?_
  cases hfetched
  refine (Twin.plainly _).andThen fun chunk => ?_
  split
  · exact he.runModule hctx spec key _
  · exact .fail _

/-- A module is there on both machines, or is evaluated on both. -/
theorem initModule (spec key : String) (place : PlaceId) :
    Twin S anyway (e.initModule spec key place ctx) (e.initModule spec key place (ctx.rename S.toRenaming)) := by
  have hsettle (ns : Option Namespace) :
      Twin S anyway (Eval.ask (.settleModule key place ns)) (Eval.ask (.settleModule key place ns)) :=
    (Twin.ask (r := .settleModule key place ns) trivial fun _ _ => rfl).mono fun _ _ _ => rfl
  unfold Evaluator.initModule
  refine Twin.bind (.ask (r := .claimModule key place) trivial fun _ _ => rfl) fun claimed _ hclaimed => ?_
  cases hclaimed
  split
  · exact .pure rfl
  · refine (he.evalModule hctx spec key).attempt.bind fun result _ hresult => ?_
    cases hresult with
    | ok heq => cases heq; exact (hsettle _).andThen fun _ => .pure rfl
    | error h => exact (hsettle none).andThen fun _ => .throw h

/-- Modules are loaded alike. -/
theorem loadModule (spec : String) :
    Twin S anyway (e.loadModule spec ctx) (e.loadModule spec (ctx.rename S.toRenaming)) := by
  unfold Evaluator.loadModule
  refine Twin.bind (.ask (r := .resolveModule ctx.kernel spec) trivial fun _ _ => rfl) fun resolved _ hresolved => ?_
  cases hresolved
  refine (Twin.plainly _).andThen fun key => ?_
  rw [Context.rename_imports]
  split
  · exact .fail _
  · refine Twin.bind (.ask (r := .findModule key) trivial fun _ _ => rfl) fun place _ hplace => ?_
    cases hplace
    exact he.initModule hctx spec key place

/-- A special form does the same on both machines. -/
theorem evalSpecial (op : Code.Special) :
    Twin S anyway (e.evalSpecial op ctx) (e.evalSpecial op (ctx.rename S.toRenaming)) := by
  cases op with
  | branch branches otherwise => exact he.branch hctx otherwise branches
  | whileLoop condition body otherwise =>
    refine (he.whileRounds hctx condition body _ _).andThen fun ran => ?_
    split
    · exact .pure rfl
    · exact he.optional hctx otherwise
  | forLoop ref container body otherwise =>
    refine (he.single hctx container _).bind fun v _ ⟨heq, hv⟩ => ?_
    subst heq
    refine (Twin.ofExcept (S.law.iterate hv)).bind fun items _ ⟨heq, hitems⟩ => ?_
    subst heq
    split
    · exact he.optional hctx otherwise
    · exact he.forItems hctx ref body hitems
  | attempt body handler otherwise finally_ => exact he.attemptForm hctx body handler otherwise finally_
  | define ref op =>
    refine (op.close_twin (some ref.name)).bind fun v _ ⟨heq, hv⟩ => ?_
    subst heq
    exact ref.write_twin hv
  | conjunction operands => exact he.shortCircuit hctx _ operands (S.law.bool _)
  | disjunction operands => exact he.shortCircuit hctx _ operands (S.law.bool _)
  | delete targets => exact he.delete hctx targets
  | load spec ref => exact (he.loadModule hctx spec).andThen fun ns => ref.write_twin (S.law.ns ns)

end Evaluator.Twins

end DualShell
