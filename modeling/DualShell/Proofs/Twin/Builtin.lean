import DualShell.Eval.Builtin
import DualShell.Proofs.Eval.Builtin
import DualShell.Proofs.Twin.Operand

/-!
# Builtins under other numbers

A builtin in renamed surroundings is the twin of the builtin itself if the calls that it makes are
(`Evaluator.Twins.invoke`). The only builtin that makes a failure of several others is `wait`, of the failures of the
jobs that it waited for (`waitFor_twin`).
-/

namespace DualShell

open Eval

variable {S : Scheme} {ctx : Context}

/-! ## Arguments -/

/-- Arguments that hold only lawful values. -/
abbrev Arguments.Lawful (L : Law) (a : Arguments) : Prop := a.Satisfy L.value

/-- Arguments that pass the check of a builtin are those that were given, and defaults. -/
theorem Schema.apply_lawful {L : Law} (command : Builtin) {a : Arguments} (h : a.Lawful L) :
    GivesOnly (Arguments.Lawful L) (command.schema.apply a) := by
  rcases command.schema.apply_cases a with hcount | ⟨text, hoption⟩ | hok
  · rw [hcount]
    exact .error
  · rw [hoption]
    exact .error
  · rw [hok]
    exact .ok (h.addDefaults L.string L.bool command)

/-! ## Jobs -/

/-- A list that is neither empty nor of one member has two. -/
theorem ListAux.two_le_length {α : Type} : {l : List α} → (l = [] → False) → (∀ a, l = [a] → False) → 2 ≤ l.length
  | [], h, _ => (h rfl).elim
  | [a], _, h => (h a rfl).elim
  | _ :: _ :: _, _, _ => Nat.le_add_left 2 _

/-- What is told of a job is strings and numbers, so every law allows it. -/
theorem JobInfo.toValue_lawful (L : Law) (j : JobInfo) : L.value j.toValue := by
  refine L.mapOf fun p hp => ?_
  simp only [List.mem_cons, List.not_mem_nil, or_false] at hp
  rcases hp with rfl | rfl | rfl <;> exact ⟨L.string _, L.string _⟩

section Jobs

variable (hctx : ctx.Usable S.toRenaming)
include hctx

/-- What a job came to is told alike. -/
theorem RunResult.replay_twin {r : RunResult} (h : S.law.result r) (bound : Nat) :
    Twin S anyway (r.replay bound ctx) (r.replay bound (ctx.rename S.toRenaming)) := by
  have hvalues : Twin S anyway (ctx.putAll r.values) ((ctx.rename S.toRenaming).putAll r.values) :=
    ctx.putAll_twin hctx h.values
  have herrors : Twin S anyway
      (do if !r.err.isEmpty then ctx.writeTo bound 2 r.err
          ctx.putAll r.values : Eval Unit)
      (do if !r.err.isEmpty then (ctx.rename S.toRenaming).writeTo bound 2 r.err
          (ctx.rename S.toRenaming).putAll r.values : Eval Unit) := by
    split
    · exact (ctx.writeTo_twin hctx bound 2 _).andThen fun _ => hvalues
    · exact hvalues
  unfold RunResult.replay
  dsimp only
  split
  · exact (ctx.writeTo_twin hctx bound 1 _).andThen fun _ => herrors
  · exact herrors

/-- Results are told alike, and the failures among them are the same. -/
theorem reap_twin (bound : Nat) : (rs : List (JobId × RunResult)) → (∀ r ∈ rs, S.law.result r.2) →
    Twin S (Same fun es => es = rs.flatMap fun r => r.2.exception.toList) (reap bound ctx rs)
    (reap bound (ctx.rename S.toRenaming) rs)
  | [], _ => .pure ⟨rfl, rfl⟩
  | (id, r) :: rs, h => by
    obtain ⟨hr, hrs⟩ := List.forall_mem_cons.1 h
    have hforget : Twin S anyway (Eval.ask (.forgetJob ctx.kernel id)) (Eval.ask (.forgetJob ctx.kernel id)) :=
      (Twin.ask (r := .forgetJob ctx.kernel id) trivial fun _ _ => rfl).mono fun _ _ _ => rfl
    refine hforget.andThen fun _ => (r.replay_twin hctx hr bound).andThen fun _ => ?_
    refine (reap_twin bound rs hrs).bind fun es _ ⟨heq, hes⟩ => ?_
    subst heq hes
    exact .pure ⟨rfl, by rw [List.flatMap_cons]⟩

omit hctx in
/-- A job that was waited for, and what it left. -/
theorem awaitJob_twin (id : JobId) :
    Twin S (Same fun x => ∀ r : RunResult, x = some r → S.law.result r ∧ S.noted (.waitJob ctx.kernel id) r)
    (awaitJob ctx id)
      (awaitJob (ctx.rename S.toRenaming) id) := by
  unfold awaitJob
  refine (Twin.ask (r := .findJob ctx.kernel id) trivial fun _ _ => rfl).bind fun _ found heq => ?_
  obtain rfl := eq_of_heq heq
  cases found with
  | true =>
    refine (Twin.ask (r := .waitJob ctx.kernel id) trivial fun _ _ => rfl).bind fun r _ ⟨heq, hr⟩ => ?_
    subst heq
    exact .pure ⟨rfl, fun r' hr' => by cases hr'; exact hr⟩
  | false => exact .pure ⟨rfl, fun r hr => nomatch hr⟩

/-- What is known of the results of jobs that were waited for. -/
abbrev Awaited (S : Scheme) (k : KernelId) (rs : List (JobId × RunResult)) : Prop :=
  ∀ r ∈ rs, S.law.result r.2 ∧ S.noted (.waitJob k r.1) r.2

omit hctx in
/-- Jobs are awaited alike, and the results are those that were noted. -/
theorem awaitJobs_twin : (ids : List JobId) →
    Twin S (Same (Awaited S ctx.kernel)) (awaitJobs ctx ids) (awaitJobs (ctx.rename S.toRenaming) ids)
  | [] => .pure ⟨rfl, List.forall_mem_nil _⟩
  | id :: ids => by
    unfold awaitJobs
    refine (awaitJob_twin id).bind fun _ first ⟨heq, hfirst⟩ => ?_
    subst heq
    refine (awaitJobs_twin ids).bind fun _ rest ⟨heq, hrest⟩ => ?_
    subst heq
    split
    · exact .pure ⟨rfl, List.forall_mem_cons.2 ⟨hfirst _ rfl, hrest⟩⟩
    · exact .pure ⟨rfl, hrest⟩

/-- Waiting for jobs forwards what they left; the failures of two or more become one. -/
theorem waitFor_twin {id : Option Value} (bound : Nat) :
    Twin S anyway (waitFor id bound ctx) (waitFor id bound (ctx.rename S.toRenaming)) := by
  unfold waitFor
  extract_lets rest rest'
  have hrest : ∀ rs, Awaited S ctx.kernel rs → Twin S anyway (rest rs) (rest' rs) := by
    intro rs hrs
    refine (reap_twin hctx bound rs fun r hr => (hrs r hr).1).bind fun _ es ⟨heq, hes⟩ => ?_
    subst heq
    have hlawful : ∀ e ∈ es, S.law.failure e := by
      subst hes
      intro e he
      obtain ⟨r, hr, he⟩ := List.mem_flatMap.1 he
      exact (hrs r hr).1.exception e (Option.mem_toList.1 he)
    split
    · exact .pure rfl
    · exact .throw (hlawful _ List.mem_cons_self)
    · rename_i hnone hone
      refine .throw ?_
      subst hes
      refine S.notes.reaped (fun r hr => (hrs r hr).2) ?_ hlawful
      exact ListAux.two_le_length hnone hone
  split
  · refine (Twin.plainly _).andThen fun id => ?_
    refine (awaitJob_twin id).bind fun _ result ⟨heq, hresult⟩ => ?_
    subst heq
    split
    · exact hrest _ (List.forall_mem_singleton.2 (hresult _ rfl))
    · exact Twin.bind (P := fun _ _ => False) (.fail _) fun _ _ h => h.elim
  · have hlist : Twin S anyway (Eval.ask (.listJobs ctx.kernel)) (Eval.ask (.listJobs ctx.kernel)) :=
      (Twin.ask (r := .listJobs ctx.kernel) trivial fun _ _ => rfl).mono fun _ _ h => eq_of_heq h
    refine hlist.andThen fun jobs => (awaitJobs_twin _).bind fun _ rs ⟨heq, hrs⟩ => ?_
    subst heq
    exact hrest rs hrs

/-! ## Inputs and outputs -/

/-- Documents are read from the same bytes, so the same values are put. -/
theorem putDocuments_twin (data : Bytes) :
    Twin S anyway (putDocuments ctx data) (putDocuments (ctx.rename S.toRenaming) data) := by
  unfold putDocuments
  generalize Json.readStream data = read
  obtain ⟨documents, fault⟩ := read
  dsimp only
  refine (ctx.putAll_twin hctx fun v hv => ?_).andThen fun _ => ?_
  · obtain ⟨j, -, rfl⟩ := List.mem_map.1 hv
    exact S.law.ofJson j
  · split
    · exact .fail _
    · exact .pure rfl

/-- Lines are put alike. -/
theorem putLines_twin (bound : Nat) (inlet : Inlet) (rounds : Nat) :
    Twin S anyway (putLines ctx bound inlet rounds)
    (putLines (ctx.rename S.toRenaming) bound (inlet.rename S.toRenaming) rounds) := by
  induction rounds with
  | zero => exact .exhausted
  | succ rounds ih =>
    refine (inlet.nextLine_twin bound).andThen fun line => ?_
    split
    · exact .pure rfl
    · exact (ctx.put_twin hctx (S.law.string _)).andThen fun _ => ih

omit hctx in
/-- All of the input is the same bytes. -/
theorem allInput_twin (bound : Nat) : Twin S anyway (allInput ctx bound) (allInput (ctx.rename S.toRenaming) bound) := by
  unfold allInput
  rw [Context.rename_descriptors, Descriptors.input?_rename]
  cases ctx.descriptors.input? 0 with
  | none => exact .pure rfl
  | some inlet => exact inlet.readAll_twin bound

end Jobs

namespace Evaluator

variable {e : Evaluator}

/-- What is done alike with each value is done alike with each input. -/
theorem forInputs_twin {act act' : Value → Eval Unit} (hact : ∀ v, S.law.value v → Twin S anyway (act v) (act' v))
    {argument : Option Value} (h : ∀ v, argument = some v → S.law.value v) :
    Twin S anyway (e.forInputs argument ctx act) (e.forInputs argument (ctx.rename S.toRenaming) act') := by
  refine (Inputs.of_twin h ctx).bind fun inputs _ ⟨heq, hinputs⟩ => ?_
  subst heq
  exact Inputs.visit_twin hinputs _ fun v hv => (hact v hv).andThen fun _ => .pure rfl

variable (he : e.Twins S) (hctx : ctx.Usable S.toRenaming)
include he hctx

/-- What a builtin does. -/
theorem Twins.runBuiltin (command : Builtin) {args : Arguments} (h : args.Lawful S.law) :
    Twin S anyway (e.runBuiltin command args ctx) (e.runBuiltin command args (ctx.rename S.toRenaming)) := by
  cases command with
  | all => exact forInputs_twin (fun v hv => ctx.put_twin hctx hv) h.head?
  | bool => exact ctx.put_twin hctx (S.law.bool _)
  | break_ => exact .throw (S.law.ofFlow _)
  | continue_ => exact .throw (S.law.ofFlow _)
  | each =>
    refine (Inputs.of_twin (h.getElem? 1) ctx).bind fun inputs _ ⟨heq, hinputs⟩ => ?_
    subst heq
    refine Inputs.visit_twin hinputs _ fun v hv => Twin.round ?_
    exact he.call hctx (S.law.head?_getD h.positional) (List.forall_mem_singleton.2 hv) (List.forall_mem_nil _)
  | echo => exact (Twin.plainly _).andThen fun text => ctx.writeTo_twin hctx _ _ _
  | eq => exact ctx.put_twin hctx (S.law.bool _)
  | fail =>
    unfold Evaluator.runBuiltin
    dsimp only
    split
    · rename_i hv
      exact .throw (S.law.exception.1 (h.head? _ hv))
    · rename_i hv
      exact .throw (S.law.ofReason (h.head? _ hv))
    · exact .throw (S.law.ofReason S.law.empty)
  | fromJson =>
    unfold Evaluator.runBuiltin
    dsimp only
    rw [Context.rename_descriptors, Descriptors.input?_rename]
    cases ctx.descriptors.input? 0 with
    | none => exact .pure rfl
    | some inlet => exact (inlet.readAll_twin _).andThen fun data => putDocuments_twin hctx data
  | fromLines =>
    unfold Evaluator.runBuiltin
    dsimp only
    rw [Context.rename_descriptors, Descriptors.input?_rename]
    cases ctx.descriptors.input? 0 with
    | none => exact .pure rfl
    | some inlet => exact putLines_twin hctx _ inlet _
  | jobs =>
    have hlist : Twin S anyway (do ctx.putAll ((← Eval.ask (.listJobs ctx.kernel)).map JobInfo.toValue) : Eval Unit)
        (do (ctx.rename S.toRenaming).putAll ((← Eval.ask (.listJobs ctx.kernel)).map JobInfo.toValue) : Eval Unit) := by
      refine Twin.bind (.ask (r := .listJobs ctx.kernel) trivial fun _ _ => rfl) fun jobs _ hjobs => ?_
      cases hjobs
      refine ctx.putAll_twin hctx fun v hv => ?_
      obtain ⟨j, -, rfl⟩ := List.mem_map.1 hv
      exact j.toValue_lawful S.law
    have hcleanup : Twin S anyway (Eval.ask (.cleanupJobs ctx.kernel)) (Eval.ask (.cleanupJobs ctx.kernel)) :=
      (Twin.ask (r := .cleanupJobs ctx.kernel) trivial fun _ _ => rfl).mono fun _ _ _ => rfl
    unfold Evaluator.runBuiltin
    dsimp only
    split
    · split
      · exact hcleanup.andThen fun _ => hlist
      · exact hlist
    · exact hlist
  | nop => exact .pure rfl
  | not => exact ctx.put_twin hctx (S.law.bool _)
  | notEq => exact ctx.put_twin hctx (S.law.bool _)
  | print => exact (Twin.plainly _).andThen fun text => ctx.writeTo_twin hctx _ _ _
  | put => exact ctx.putAll_twin hctx h.positional
  | return_ => exact .throw (S.law.ofFlow _)
  | slurp =>
    refine (allInput_twin _).andThen fun data => ?_
    split
    · exact ctx.put_twin hctx (S.law.string _)
    · exact .fail _
  | toJson => exact forInputs_twin (fun v _ => (Twin.plainly _).andThen fun document => ctx.writeTo_twin hctx _ _ _) h.head?
  | toLines => exact forInputs_twin (fun v _ => ctx.writeTo_twin hctx _ _ _) h.head?
  | wait => exact waitFor_twin hctx _

/-- Calling a builtin with lawful arguments. -/
theorem Twins.invoke (command : Builtin) {args : List Value} {opts : List (String × Value)} (hargs : S.law.values args)
    (hopts : ∀ o ∈ opts, S.law.value o.2) :
    Twin S anyway (e.invoke command args opts ctx) (e.invoke command args opts (ctx.rename S.toRenaming)) := by
  refine (Twin.ofExcept (Schema.apply_lawful command ⟨hargs, hopts⟩)).bind fun args _ ⟨heq, hargs⟩ => ?_
  subst heq
  exact he.runBuiltin hctx command hargs

end Evaluator

end DualShell
