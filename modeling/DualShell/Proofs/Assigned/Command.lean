import DualShell.Proofs.Assigned.Operand
import DualShell.Proofs.Eval.Run

/-!
# Straight code finds its variables

Assignments, calls and forms of straight code do to the frame what their touches say. A call runs in a frame of its own,
which there was not before, so whatever it deletes leaves the frames of its callers alone
(`Evaluator.Finds.callClosure`). By induction on the depth of evaluation, all straight code that the evaluator runs does
what its touches say (`Evaluator.atDepth_finds`).
-/

namespace DualShell

open Eval

variable {ctx : Context}

/-! ## Assignments -/

/-- Every target has its share. -/
theorem shares_fst : (ts : List Code.Target) → (vs : List Value) → (shares ts vs).map (·.1) = ts
  | [], _ => rfl
  | t :: ts, vs => by
    unfold shares
    split
    · exact congrArg _ (shares_fst ts _)
    · split <;> exact congrArg _ (shares_fst ts _)

/-- Plain targets take as many values as there are. -/
theorem length_of_checkArity {ts : List Code.Target} {got : Nat} (hplain : ts.all (·.isPlain) = true)
    (h : checkArity ts got = .ok ()) : got = ts.length := by
  have hrest : ∀ t ∈ ts, t.rest = false := by
    intro t ht
    have := List.all_eq_true.1 hplain t ht
    simp only [Code.Target.isPlain, Bool.and_eq_true, Bool.not_eq_true'] at this
    exact this.2
  have hfilter : ts.filter (fun t => !t.rest) = ts := List.filter_eq_self.2 fun t ht => by simp [hrest t ht]
  have hany : ts.any (·.rest) = false := List.any_eq_false.2 fun t ht => by simp [hrest t ht]
  unfold checkArity at h
  simp only [hfilter, hany, Bool.false_eq_true, if_false] at h
  split at h
  · rename_i heq
    exact eq_of_beq heq
  · nomatch h

/-- Variables that can be put back, with sound values. -/
def SavedReady (saved : List Saved) : Prop :=
  ∀ p ∈ saved, (∀ held, Covers held p.1.sets) ∧ ∀ v, p.2 = some v → v.Sound coveredBodies

/-- After success names are held in the frame; a failure is sound. -/
def Ended (f : FrameId) (held : String → Prop) (o : Outcome) (s : Bindings) : Prop :=
  match o with
  | .ok () => s.Holds f held
  | .error ex => ex.Sound coveredBodies

/-- What may be given a value may be given one whatever is bound. -/
theorem Ref.covers_sets {ref : Ref} {held : String → Prop} (h : Covers held ref.sets) (held' : String → Prop) :
    Covers held' ref.sets := by
  cases ref with
  | «local» name => exact .bind .nil
  | member ns name => exact h.not_stray.elim
  | _ => exact .nil

/-- What a variable holds before it is set for a while is looked at only where it has a cell. -/
theorem Ref.peek_does {ref : Ref} (h : ∀ held, Covers held ref.sets) :
    (ref.peek ctx).Does ctx.frame [] fun o => ∀ v, o = some v → v.Sound coveredBodies := by
  cases ref with
  | «local» name => exact .askPlain (r := .peek ctx.frame name) trivial trivial
  | env name =>
    refine .map (.askPlain (r := .getEnv ctx.kernel name) trivial trivial) fun o _ v hv => ?_
    obtain ⟨text, -, rfl⟩ := Option.map_eq_some_iff.1 hv
    exact .string _
  | member ns name => exact (h fun _ => True).not_stray.elim
  | captured name => exact .map (Ref.captured name).read_does fun v hv v' hv' => by cases hv'; exact hv
  | builtin name => exact .map (Ref.builtin name).read_does fun v hv v' hv' => by cases hv'; exact hv

/-- Names that are held before a variable gets a value are held afterwards. -/
theorem Ref.held_sets {ref : Ref} {held : String → Prop} {n : String} (h : held n) : ref.sets.foldl Touch.after held n :=
  Touch.afterAll_of_held h (ref.quiet_sets n)

/-- Variables are set for a while, and what they held is kept. -/
theorem setAside_finds : (shares : List (Code.Target × Value)) →
    ∀ {saved : List Saved} {held : String → Prop} {s : Bindings},
    (∀ p ∈ shares, p.1.isPlain = true ∧ p.2.Sound coveredBodies) → Covers held (Code.targetsTouches (shares.map (·.1))) →
    s.Holds ctx.frame held → SavedReady saved →
    (setAside ctx shares saved).Keeps finding (fun r s' => (within ctx.frame).Leads s s' ∧ SavedReady r.1 ∧
      Ended ctx.frame ((Code.targetsTouches (shares.map (·.1))).foldl Touch.after held) r.2 s') s
  | [], saved, held, s, _, _, hs, hsaved => ⟨(within ctx.frame).refl s, hsaved, hs⟩
  | (t, v) :: rest, saved, held, s, hshares, hc, hs, hsaved => by
    obtain ⟨hplain, hv⟩ := hshares _ List.mem_cons_self
    have hindices : t.indices.isEmpty = true := (Bool.and_eq_true_iff.1 hplain).1
    have htouches : Code.targetsTouches (((t, v) :: rest).map (·.1)) = t.ref.sets ++
      Code.targetsTouches (rest.map (·.1)) := by
      rw [List.map_cons, Code.targetsTouches_cons, if_pos hindices]
    rw [htouches] at hc ⊢
    obtain ⟨hsets, hlater⟩ := hc.of_append
    have hready := Ref.covers_sets hsets
    unfold setAside
    refine Task.Keeps.bind (Task.Keeps.mono (Ref.peek_does hready held s .nil hs) fun r s' hr => ?_)
    split
    · exact ⟨hr.1, hsaved, hr.2⟩
    · obtain ⟨hs', hprior, hheld⟩ := hr
      refine Task.Keeps.bind (Task.Keeps.mono (t.ref.write_does hv held s' hsets hheld) fun r s'' hr => ?_)
      obtain ⟨hs'', hr⟩ := hr
      have hleads := (within ctx.frame).trans hs' hs''
      have hsaved' : SavedReady ((t.ref, _) :: saved) := List.forall_mem_cons.2 ⟨⟨hready, hprior⟩, hsaved⟩
      split
      · exact ⟨hleads, hsaved', hr⟩
      · rw [List.foldl_append]
        have hrest := setAside_finds rest (fun p hp => hshares p (List.mem_cons_of_mem _ hp)) hlater hr.2 hsaved'
        exact Task.Keeps.mono hrest fun r s₃ hr => ⟨(within ctx.frame).trans hleads hr.1, hr.2⟩

/-- What is put back leaves the names in the frame that were there. -/
theorem putBack_finds : (saved : List Saved) → ∀ {held : String → Prop} {s : Bindings}, SavedReady saved →
    s.Holds ctx.frame held →
    (putBack ctx saved).Keeps finding (fun o s' => (within ctx.frame).Leads s s' ∧ Ended ctx.frame held o s') s
  | [], held, s, _, hs => ⟨(within ctx.frame).refl s, hs⟩
  | (ref, prior) :: rest, held, s, hsaved, hs => by
    obtain ⟨hready, hprior⟩ := hsaved _ List.mem_cons_self
    have hrest : SavedReady rest := fun p hp => hsaved p (List.mem_cons_of_mem _ hp)
    have hv : (prior.getD .empty).Sound coveredBodies := by
      cases prior with
      | none => exact .empty
      | some v => exact hprior v rfl
    unfold putBack
    refine Task.Keeps.bind (Task.Keeps.mono (ref.write_does hv held s (hready held) hs) fun first s' hr => ?_)
    obtain ⟨hs', hfirst⟩ := hr
    cases first with
    | ok =>
      have hheld : s'.Holds ctx.frame held := ⟨hfirst.2.made, fun n hn => hfirst.2.has n (Ref.held_sets hn)⟩
      refine Task.Keeps.bind (Task.Keeps.mono (putBack_finds rest hrest hheld) fun others s'' hr => ?_)
      exact ⟨(within ctx.frame).trans hs' hr.1, hr.2⟩
    | error ex =>
      have hmade : s'.Holds ctx.frame fun _ => False := ⟨hs'.1 _ hs.made, fun _ hn => hn.elim⟩
      refine Task.Keeps.bind (Task.Keeps.mono (putBack_finds rest hrest hmade) fun others s'' hr => ?_)
      exact ⟨(within ctx.frame).trans hs' hr.1, hfirst⟩

namespace Evaluator.Finds

variable {e : Evaluator} (he : e.Finds)
include he

/-- A target is set as a whole, or an element of what it holds is changed. -/
theorem setTarget (t : Code.Target) {v : Value} (hv : v.Sound coveredBodies) : (e.setTarget ctx t v).Does ctx.frame
    (if t.indices.isEmpty then t.ref.sets else Code.operandsTouches t.indices ++ t.ref.changes) fun _ => True := by
  unfold Evaluator.setTarget
  split
  · exact t.ref.write_does hv
  · exact .bind (he.keys t.indices) fun ks hks => t.ref.edit_does ⟨hks, hv⟩

/-- Targets are set in their order. -/
theorem setTargets : (shares : List (Code.Target × Value)) → (∀ p ∈ shares, p.2.Sound coveredBodies) →
    (e.setTargets ctx shares).Does ctx.frame (Code.targetsTouches (shares.map (·.1))) fun _ => True
  | [], _ => .pure trivial
  | (t, v) :: rest, h => by
    rw [List.map_cons, Code.targetsTouches_cons]
    exact .bind (he.setTarget t (h _ List.mem_cons_self)) fun _ _ => setTargets rest fun p hp =>
      h p (List.mem_cons_of_mem _ hp)

/-- The values of an assignment are as many as its targets take. -/
theorem assignValues (op : Code.Assign) : (e.assignValues op ctx).Does ctx.frame (Code.operandsTouches op.values)
    fun vs => Value.AllSound coveredBodies vs ∧ checkArity op.targets vs.length = .ok () := by
  refine .before (he.all op.values) fun vs hvs => ?_
  have hcheck :
    coveredBodies.Yields (fun _ => checkArity op.targets vs.length = .ok ()) (checkArity op.targets vs.length) := by
    have hplain := Quality.Plain.checkArity (q := coveredBodies) op.targets vs.length
    cases h : checkArity op.targets vs.length with
    | ok => rfl
    | error c =>
      rw [h] at hplain
      exact hplain
  exact .map (.ofExcept hcheck) fun _ h => ⟨hvs, h⟩

/-- An assignment does what its touches say. -/
theorem evalAssign (op : Code.Assign) : (e.evalAssign op ctx).Does ctx.frame op.touches fun _ => True := by
  obtain ⟨targets, values⟩ := op
  refine .bind (he.assignValues ⟨targets, values⟩) fun vs hvs => ?_
  have hset : (e.setTargets ctx (shares targets vs)).Does ctx.frame
    (Code.targetsTouches ((shares targets vs).map (·.1))) fun _ => True :=
    he.setTargets _ fun p hp => (mem_shares hvs.1 hp).2
  rwa [shares_fst] at hset

/-- Temporary variables are set in their order, and all that were set may be put back. -/
theorem setTemps : (temps : List Code.Assign) → ∀ {saved : List Saved} {held : String → Prop} {s : Bindings},
    Covers held (Code.assignsTouches temps) → s.Holds ctx.frame held → SavedReady saved →
    (e.setTemps ctx temps saved).Keeps finding (fun r s' => (within ctx.frame).Leads s s' ∧ SavedReady r.1 ∧
      Ended ctx.frame ((Code.assignsTouches temps).foldl Touch.after held) r.2 s') s
  | [], saved, held, s, _, hs, hsaved => ⟨(within ctx.frame).refl s, hsaved, hs⟩
  | ⟨targets, values⟩ :: ops, saved, held, s, hc, hs, hsaved => by
    unfold Code.assignsTouches at hc ⊢
    dsimp only at hc ⊢
    by_cases hplain : targets.all (·.isPlain) = true
    case neg =>
      rw [if_neg hplain] at hc
      exact hc.not_stray.elim
    rw [if_pos hplain, Code.Assign.touches] at hc ⊢
    obtain ⟨hfirst, hops⟩ := hc.of_append
    obtain ⟨hvalues, htargets⟩ := hfirst.of_append
    unfold Evaluator.setTemps
    refine Task.Keeps.bind (Task.Keeps.mono (he.assignValues ⟨targets, values⟩ held s hvalues hs) fun r s' hr => ?_)
    obtain ⟨hs', hr⟩ := hr
    split
    · exact ⟨hs', hsaved, hr⟩
    · rename_i vs
      obtain ⟨⟨hvs, harity⟩, hheld⟩ := hr
      have hlength := length_of_checkArity hplain harity
      have hfst : (targets.zip vs).map (·.1) = targets := List.map_fst_zip (Nat.le_of_eq hlength.symm)
      have hshares : ∀ p ∈ targets.zip vs, p.1.isPlain = true ∧ p.2.Sound coveredBodies := fun p hp =>
        ⟨List.all_eq_true.1 hplain _ (List.of_mem_zip hp).1, hvs _ (List.of_mem_zip hp).2⟩
      have hset := setAside_finds (targets.zip vs) hshares (hfst.symm ▸ htargets) hheld hsaved
      rw [hfst] at hset
      refine Task.Keeps.bind (Task.Keeps.mono hset fun r s'' hr => ?_)
      obtain ⟨hs'', hsaved', hout⟩ := hr
      have hleads := (within ctx.frame).trans hs' hs''
      split
      · exact ⟨hleads, hsaved', hout⟩
      · rw [List.foldl_append, List.foldl_append]
        rw [List.foldl_append] at hops
        exact Task.Keeps.mono (setTemps ops hops hout hsaved') fun r s₃ hr => ⟨(within ctx.frame).trans hleads hr.1, hr.2⟩

/-- Temporary assignments around something. -/
theorem withTemps (temps : List Code.Assign) {us : List Touch} {body : Eval Unit}
    (hbody : body.Does ctx.frame us fun _ => True) :
    (e.withTemps temps ctx body).Does ctx.frame (Code.assignsTouches temps ++ us) fun _ => True := by
  unfold Evaluator.withTemps
  split
  · rename_i hempty
    rw [List.isEmpty_iff.1 hempty]
    exact hbody
  · intro held s hc hs
    obtain ⟨htemps, hus⟩ := hc.of_append
    rw [List.foldl_append]
    refine Safe.bind (Safe.lift (he.setTemps temps htemps hs fun _ hp => nomatch hp)) fun r s' hs' hr => ?_
    obtain ⟨saved, ready⟩ := r
    obtain ⟨hsaved, hready⟩ := hr
    have hmade : s'.made ctx.frame := hs'.1 _ hs.made
    have hfinish : ∀ (held' : String → Prop) (outcome : Outcome) (s'' : Bindings), s''.made ctx.frame →
        Ended ctx.frame held' outcome s'' → Safe (within ctx.frame) (fun _ s₃ => True ∧ s₃.Holds ctx.frame held') (do
          let restored ← ExceptT.lift (putBack ctx saved)
          match outcome with
          | .ok () => ofOutcome restored
          | .error ex => throw ex : Eval Unit) s'' := by
      intro held' outcome s'' hmade hout
      cases outcome with
      | ok =>
        refine Safe.bind (Safe.lift (putBack_finds saved hsaved hout)) fun restored s₃ _ hrestored => ?_
        cases restored with
        | ok => exact .pure ⟨trivial, hrestored⟩
        | error ex => exact .throw hrestored
      | error ex =>
        have hholds : s''.Holds ctx.frame fun _ => False := ⟨hmade, fun _ hn => hn.elim⟩
        exact Safe.bind (Safe.lift (putBack_finds saved hsaved hholds)) fun _ _ _ _ => .throw hout
    dsimp only
    split
    · refine (hbody _ s' hus hready).attempt.bind fun outcome s'' hs'' hout => hfinish _ outcome s'' (hs''.1 _ hmade) ?_
      cases outcome with
      | ok => exact hout.2
      | error ex => exact hout
    · exact hfinish _ (.error _) s' hmade hready

end Evaluator.Finds

/-! ## Calls -/

/-- A call binds the names of all arguments. -/
theorem Code.Lambda.bind_names {op : Code.Lambda} {args : List Value} {vars : List (String × Value)}
    (h : op.bind args = .ok vars) {n : String} (hn : n ∈ op.variables) : ∃ p ∈ vars, p.1 = n := by
  unfold Code.Lambda.bind at h
  split at h
  · rename_i haccepts
    cases h
    have hlength : op.params.length ≤ args.length := by
      unfold Code.Lambda.accepts at haccepts
      split at haccepts
      · exact of_decide_eq_true haccepts
      · exact Nat.le_of_eq (eq_of_beq haccepts).symm
    unfold Code.Lambda.bindings
    rcases List.mem_append.1 hn with hn | hn
    · rw [← List.map_fst_zip hlength] at hn
      obtain ⟨p, hp, rfl⟩ := List.mem_map.1 hn
      exact ⟨p, List.mem_append_left _ hp, rfl⟩
    · cases hrest : op.rest with
      | none => simp [hrest] at hn
      | some rest =>
        have hname : n = rest := by simpa [hrest] using hn
        exact ⟨(rest, _), List.mem_append_right _ List.mem_cons_self, hname.symm⟩
  · cases h

/-- A new frame, with the names of its variables, that none of those before is. -/
theorem ask_activate {home : Option FrameId} {vars : List (String × Value)} {imports : List String} {s : Bindings}
    (hvars : OptionsSound coveredBodies vars) :
    (ask (.activate home vars imports)).Safe finding.aside
      (fun f s' => ¬s.made f ∧ s'.Holds f fun n => ∃ p ∈ vars, p.1 = n) s :=
  .ask (D := finding) hvars fun _ _ hx => ⟨hx.1, hx.2.1, hx.2.2.1, fun _ ⟨p, hp, hn⟩ => hn ▸ hx.2.2.2 p hp⟩

namespace Evaluator.Finds

variable {e : Evaluator} (he : e.Finds)
include he

/-- A call leaves the frames alone that were there before it. -/
theorem callClosure {c : Closure} {args : List Value} {opts : List (String × Value)} (hc : coveredBodies.closure c)
    (hargs : Value.AllSound coveredBodies args) (s : Bindings) :
    (e.callClosure c args opts ctx).Safe finding.aside anything s := by
  have hbind : coveredBodies.Yields (fun vars => c.op.bind args = .ok vars ∧ OptionsSound coveredBodies vars)
    (c.op.bind args) := by
    have hsound := c.op.bind_sound hargs
    cases h : c.op.bind args with
    | ok vars => exact ⟨rfl, by rwa [h] at hsound⟩
    | error cause => rwa [h] at hsound
  have hspared : (e.callClosure c args opts ctx).Safe (sparing s.made) anything s := by
    unfold Evaluator.callClosure
    refine Safe.bind (Safe.ofExcept (D := finding) (Q := fun vars _ => c.op.bind args = .ok vars ∧
      OptionsSound coveredBodies vars) hbind) fun vars s' hs hvars => ?_
    refine Safe.andThen (Safe.ofPlain (.rejectOpts _ _)) fun _ s'' hs' => ?_
    refine Safe.bind ((ask_activate hvars.2).widen fun _ hs => (sparing s.made).of_later hs) fun frame s₃ hs'' hframe => ?_
    have hnew : ∀ f, s.made f → f ≠ frame := fun f hf heq => hframe.1 (heq ▸ hs'.1 f (hs.1 f hf))
    have hheld : s₃.Holds frame (· ∈ c.op.variables) :=
      ⟨hframe.2.made, fun n hn => hframe.2.has n (Code.Lambda.bind_names hvars.1 hn)⟩
    have hbody := (he.block c.op.body (ctx.enter frame c.captures) _ s₃ hc hheld).widen fun _ hs => 
      (show (sparing s.made).Leads _ _ from ⟨hs.1, fun f n hf => hs.2 f n (hnew f hf)⟩)
    refine hbody.attempt.bind fun result s₄ _ hresult => ?_
    split
    · exact .pure trivial
    · split
      · exact .pure trivial
      · exact .throw hresult
  exact hspared.widen fun s' hs => ⟨hs.1, fun f n hn => hs.2 f n (s.made_of_has f n hn) hn⟩

/-- A call of a sound value. -/
theorem callValue (v : Value) (args : List Value) (opts : List (String × Value)) (ctx : Context) (s : Bindings)
    (hv : v.Sound coveredBodies) (hargs : Value.AllSound coveredBodies args) (hopts : OptionsSound coveredBodies opts) :
    (e.callValue v args opts ctx).Safe finding.aside anything s := by
  unfold Evaluator.callValue
  split
  · exact he.callClosure hv.of_closure hargs s
  · split
    · exact invoke_safe (he.call _ _) _ hargs hopts
    · exact e.callProgram_harmless (K := finding.aside) _ _ _ _ s
  · exact .fail trivial

/-- The values of options are had in their order. -/
theorem optValues : (opts : List (String × Code.Operand)) →
    (e.optValues ctx opts).Does ctx.frame (Code.optsTouches opts) (OptionsSound coveredBodies)
  | [] => .pure fun _ ho => nomatch ho
  | (_, op) :: rest =>
    .bind (he.single op _) fun _ hv => .map (optValues rest) fun _ hopts => List.forall_mem_cons.2 ⟨hv, hopts⟩

/-- What a head calls leaves the frames alone that were there before. -/
theorem callee (head : Code.Head) : (e.callee head ctx).Does ctx.frame head.touches fun run => ∀ args opts s,
    Value.AllSound coveredBodies args → OptionsSound coveredBodies opts → (run args opts).Safe finding.aside anything s := by
  cases head with
  | function name ref =>
    refine .before ref.read_does fun v hv => ?_
    split
    · exact .pure fun args opts s hargs _ => he.callClosure hv.of_closure hargs s
    · exact .fail trivial
  | dynamic op =>
    exact .map (he.single op _) fun v hv args opts s hargs hopts => he.callValue v args opts ctx s hv hargs hopts
  | builtin b => exact .pure fun args opts s hargs hopts => invoke_safe (he.call _ _) b hargs hopts
  | external name =>
    exact .pure fun args opts s _ _ => Evaluator.callProgram_harmless (K := finding.aside) e name args opts ctx s

/-- A command does what its touches say. -/
theorem evalCall (op : Code.Call) : (e.evalCall op ctx).Does ctx.frame op.touches fun _ => True := by
  obtain ⟨head, args, opts⟩ := op
  refine .bind (he.callee head) fun run hrun => .bind (he.all args) fun vs hvs =>
    .before (he.optValues opts) fun os hos => ?_
  exact .ofAside fun s => (hrun vs os s hvs hos)

end Evaluator.Finds

/-! ## Forms -/

namespace Evaluator.Finds

variable {e : Evaluator} (he : e.Finds)
include he

/-- Deletions take away the names they drop, and reach elements only of names that are found. -/
theorem delete : (ds : List Code.Deletion) → (e.delete ctx ds).Does ctx.frame (Code.deletionsTouches ds) fun _ => True
  | [] => .pure trivial
  | ⟨ref, indices⟩ :: ds => by
    unfold Evaluator.delete Code.deletionsTouches
    dsimp only
    by_cases hempty : indices.isEmpty
    · rw [if_pos hempty, if_pos hempty]
      cases ref with
      | «local» name => exact .bind ask_drop fun _ _ => delete ds
      | _ => exact delete ds
    · rw [if_neg hempty, if_neg hempty]
      have hrest : ∀ ks, Value.AllSound coveredBodies ks →
          (do ref.edit ctx (.remove ks); e.delete ctx ds : Eval Unit).Does ctx.frame
            (ref.changes ++ Code.deletionsTouches ds) fun _ => True :=
        fun ks hks => .bind (ref.edit_does (show (Edit.remove ks).Sound coveredBodies from hks)) fun _ _ => delete ds
      rw [List.append_assoc]
      exact .bind (he.keys indices) hrest

/-- A special form touches what it says. -/
theorem evalSpecial (op : Code.Special) : (e.evalSpecial op ctx).Does ctx.frame op.touches fun _ => True := by
  cases op with
  | define ref op => exact .bind (op.close_does (some ref.name)) fun v hv => ref.write_does hv
  | delete targets => exact he.delete targets
  | _ => exact .stray

/-- What a form does touches what it says. -/
theorem evalAction (action : Code.Action) : (e.evalAction action ctx).Does ctx.frame action.touches fun _ => True := by
  cases action with
  | assign op => exact he.evalAssign op
  | special op => exact he.evalSpecial op
  | call op => exact he.evalCall op

/-- Redirections touch what the words in them do. -/
theorem redirect : (redirs : List Code.Redir) → ∀ descriptors : Descriptors,
    (e.redirect ctx redirs descriptors).Does ctx.frame (Code.redirsTouches redirs) fun _ => True
  | [], _ => .pure trivial
  | ⟨fd, mode, target⟩ :: rs, descriptors => by
    unfold Evaluator.redirect
    dsimp only
    cases target with
    | close => exact redirect rs _
    | fd source => exact .after (.ofPlain (.duplicate _ _ _)) fun _ _ => redirect rs _
    | path op =>
      refine .bind (he.single op _) fun v hv => ?_
      refine .after (.ofPlain (.expectString _ _)) fun path _ => .after (.askPlain trivial trivial) fun opened _ => ?_
      have hopened : coveredBodies.Plain (opened.mapError fun e => Cause.io s!"{path}: {e.message}") := by
        cases opened <;> trivial
      exact .after (.ofPlain hopened) fun connection _ => redirect rs _

/-- A form does what its touches say. -/
theorem evalForm (form : Code.Form) (ctx : Context) (wiring : Wiring) :
    (e.evalForm form ctx wiring).Does ctx.frame form.touches fun _ => True := by
  obtain ⟨temps, action, redirs, place⟩ := form
  have hbody : ∀ used : Wiring, (do
      let descriptors ← e.redirect ctx redirs (used.install ctx.descriptors)
      let ctx := ctx.withDescriptors descriptors
      e.withTemps temps ctx (e.evalAction action ctx) : Eval Unit).Does ctx.frame
        (Code.Form.touches ⟨temps, action, redirs, place⟩) fun _ => True := fun used =>
    .bind (he.redirect redirs _) fun ds _ => he.withTemps temps (@evalAction (ctx.withDescriptors ds) e he action)
  have hclose : ∀ w : Wiring, w.close.Does ctx.frame [] fun _ => True := fun w => .ofHarmless (Wiring.close_harmless w)
  unfold Evaluator.evalForm
  refine .after (hclose _) fun _ _ => .attempt (hbody _) (fun _ _ => .after (hclose _) fun _ _ => .pure trivial)
    fun ex s hex => ?_
  exact Safe.andThen (Wiring.close_harmless (K := within ctx.frame) _ s) fun _ s' _ => .throw (Exception.Sound.passing hex _)

end Evaluator.Finds

/-! ## The evaluator -/

namespace Evaluator.Finds

variable {e : Evaluator} (he : e.Finds)
include he

/-- A pipeline of one form in the foreground touches what the form does; what any other touches is stray. -/
theorem evalPipeline (p : Code.Pipeline) : (e.evalPipeline p ctx).Does ctx.frame p.touches fun _ => True := by
  obtain ⟨forms, background, place, text⟩ := p
  cases background with
  | true => exact .stray
  | false =>
    match forms with
    | [] => exact .stray
    | [form] => exact he.form form ctx .loose
    | _ :: _ :: _ => exact .stray

/-- Pipelines touch what they say, one after another. -/
theorem evalPipelines : (ps : List Code.Pipeline) → (e.evalPipelines ctx ps).Does ctx.frame (Code.pipelinesTouches ps)
    fun _ => True
  | [] => .pure trivial
  | p :: ps => .bind (he.evalPipeline p) fun _ _ => evalPipelines ps

/-- A block does what its touches say. -/
theorem evalBlock (b : Code.Block) (ctx : Context) : (e.evalBlock b ctx).Does ctx.frame b.touches fun _ => True := by
  obtain ⟨ps⟩ := b
  exact he.evalPipelines ps

end Evaluator.Finds

/-- All straight code that the evaluator runs does what its touches say. -/
theorem Evaluator.atDepth_finds (bound depth : Nat) : (Evaluator.atDepth bound depth).Finds := by
  induction depth with
  | zero => exact ⟨fun _ _ => .exhausted, fun _ _ _ => .exhausted, fun _ _ => .exhausted,
      fun _ _ _ _ _ _ _ _ _ _ => .exhausted⟩
  | succ depth ih =>
    exact ⟨ih.evalBlock, ih.evalForm, ih.evalOperand, fun ctx _ s _ v args opts => ih.callValue v args opts ctx s⟩

end DualShell
