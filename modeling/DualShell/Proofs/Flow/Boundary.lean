import DualShell.Proofs.Flow.Loop

/-!
# Where flow signals end

`break`, `continue` and `return` travel as failures do, up to the construct they are meant for. Each construct takes up
its own signals and lets the others through as they are: a capture of exceptions and a handler take up no signal, a
function that a definition made takes up `return` and a lambda does not, a loop takes up what its body raised for it,
and no signal leaves a module (`Evaluator.flowBoundaries`). The laws are about any evaluator of the parts and any
answers of the machine, so they hold of every program in every state.
-/

namespace DualShell

open Eval

variable {e : Evaluator} {ctx : Context} {es : List Exchange}

/-! ## Evaluation that raises no signal -/

/-- No run of the evaluation ends in a flow signal. -/
def Eval.Flowless {α : Type} (x : Eval α) : Prop := ∀ es ex, x.Ends es (.error ex) → ex.isFlow = false

namespace Eval.Flowless

variable {α β : Type}

theorem pure {a : α} : (Pure.pure a : Eval α).Flowless := by
  intro es ex h
  cases (ends_pure.1 h).2

/-- A plain failure is no flow signal. -/
theorem fail {c : Cause} : (Eval.fail c : Eval α).Flowless := by
  intro es ex h
  cases (ends_fail.1 h).2
  rfl

theorem ask {q : Request} : (Eval.ask q).Flowless := by
  intro es ex h
  obtain ⟨a, -, heq⟩ := ends_ask.1 h
  cases heq

theorem ofExcept {v : Except Cause α} : (Eval.ofExcept v).Flowless := by
  cases v with
  | ok a => exact pure
  | error c => exact fail

/-- Evaluation one part after another raises no signal if no part does. -/
theorem bind {x : Eval α} {f : α → Eval β} (hx : x.Flowless) (hf : ∀ a, (f a).Flowless) : (x >>= f).Flowless := by
  intro es ex h
  rcases ends_bind.1 h with ⟨ex', h, heq⟩ | ⟨es₁, es₂, a, -, -, h⟩
  · cases heq
    exact hx es ex h
  · exact hf a es₂ ex h

/-- A flow signal is not raised by evaluation that raises none. -/
theorem not_isFlow {x : Eval α} (hx : x.Flowless) {es : List Exchange} {ex : Exception} (h : x.Ends es (.error ex)) :
    ¬ex.isFlow = true := by
  rw [hx es ex h]
  exact Bool.false_ne_true

end Eval.Flowless

/-- Flow signals are the failures that carry a flow. -/
theorem Exception.isFlow_iff {ex : Exception} : ex.isFlow = true ↔ ∃ f, ex.flow? = some f := Option.isSome_iff_exists

theorem Exception.isFlow_false_iff {ex : Exception} : ex.isFlow = false ↔ ex.flow? = none := by
  unfold isFlow
  cases ex.flow? <;> simp

/-- A signal for loops is a signal. -/
theorem Exception.IsLoopSignal.isFlow {ex : Exception} (h : ex.IsLoopSignal) : ex.isFlow = true :=
  isFlow_iff.2 (h.elim (fun h => ⟨_, h⟩) fun h => ⟨_, h⟩)

/-- To read a variable raises no flow signal. -/
theorem Ref.read_flowless : (ref : Ref) → (ref.read ctx).Flowless
  | .builtin name => by
    unfold read
    refine .bind .ask fun x => ?_
    cases x with
    | some v => exact .pure
    | none => exact .fail
  | .env name => by
    unfold read
    exact .bind .ask fun _ => .pure
  | .local name => by
    unfold read cell
    exact .bind .ask fun _ => .ask
  | @Ref.captured level name => by
    unfold read cell
    refine .bind (.bind .ask fun x => ?_) fun _ => .ask
    cases x with
    | some c => exact .pure
    | none => exact .fail
  | .member ns name => by
    unfold read
    refine .bind (read_flowless ns) fun v => ?_
    split
    · refine .bind .ask fun x => ?_
      cases x with
      | some c => exact .ask
      | none => exact .fail
    · exact .fail

/-- To reach the cell of a variable raises no flow signal. -/
theorem Ref.cell_flowless (ref : Ref) (access : Access) : (ref.cell ctx access).Flowless := by
  unfold cell
  cases ref with
  | builtin name | env name => exact .fail
  | «local» name => exact .ask
  | captured name =>
    refine .bind .ask fun x => ?_
    cases x with
    | some c => exact .pure
    | none => exact .fail
  | member ns name =>
    refine .bind ns.read_flowless fun v => ?_
    split
    · refine .bind .ask fun x => ?_
      cases x with
      | some c => exact .pure
      | none => exact .fail
    · exact .fail

/-- To write a variable raises no flow signal. -/
theorem Ref.write_flowless (ref : Ref) (v : Value) : (ref.write ctx v).Flowless := by
  unfold write
  split
  · exact .bind .ofExcept fun _ => .ask
  · exact .bind (ref.cell_flowless .write) fun _ => .ask

/-! ## Captures of exceptions and handlers -/

/-- How an exception capture ends, by how its body ended. -/
inductive Evaluator.Rescues (e : Evaluator) (body : Code.Block) (ctx : Context) :
    List Exchange → Except Exception (List Value) → Prop
  | ok {es : List Exchange} (h : (e.block body ctx).Ends es (.ok ())) : Rescues e body ctx es (.ok [.ok])
  | caught {es : List Exchange} {ex : Exception} (h : (e.block body ctx).Ends es (.error ex)) (hex : ex.isFlow = false)
      (identity : Nat) : Rescues e body ctx (es ++ [⟨.identity, identity⟩]) (.ok [.exception identity ex])
  | passed {es : List Exchange} {ex : Exception} (h : (e.block body ctx).Ends es (.error ex)) (hex : ex.isFlow = true) :
      Rescues e body ctx es (.error ex)

/-- An exception capture ends as `Rescues` says. -/
theorem Evaluator.ends_rescue {body : Code.Block} {r : Except Exception (List Value)} :
    (e.evalOperand (.rescue body) ctx).Ends es r ↔ e.Rescues body ctx es r := by
  change (e.rescue body ctx >>= fun v => pure [v]).Ends es r ↔ _
  unfold rescue
  rw [bind_assoc, ends_attempt_bind]
  constructor
  · rintro ⟨es₁, es₂, o, rfl, hbody, h⟩
    rcases o with ex | ⟨⟩
    · dsimp only at h
      split at h
      · rename_i hex
        obtain ⟨rfl, rfl⟩ := ends_throw.1 h
        rw [List.append_nil]
        exact .passed hbody hex
      · rename_i hex
        obtain ⟨identity, rest, rfl, hlast⟩ := ends_ask_bind.1 h
        obtain ⟨rfl, rfl⟩ := ends_pure.1 hlast
        exact .caught hbody (Bool.eq_false_iff.2 hex) identity
    · obtain ⟨rfl, rfl⟩ := ends_pure.1 h
      rw [List.append_nil]
      exact .ok hbody
  · intro h
    cases h with
    | ok hbody => exact ⟨es, [], .ok (), (List.append_nil es).symm, hbody, ends_pure.2 ⟨rfl, rfl⟩⟩
    | caught hbody hex identity =>
      refine ⟨_, [_], .error _, rfl, hbody, ?_⟩
      simp only [hex, Bool.false_eq_true, if_false]
      exact ends_ask_bind.2 ⟨identity, [], rfl, ends_pure.2 ⟨rfl, rfl⟩⟩
    | passed hbody hex =>
      refine ⟨es, [], .error _, (List.append_nil es).symm, hbody, ?_⟩
      simp only [hex, if_true]
      exact ends_throw.2 ⟨rfl, rfl⟩

/-- The value of an exception capture is no flow signal. -/
theorem Evaluator.value_of_rescue {body : Code.Block} {vs : List Value}
    (h : (e.evalOperand (.rescue body) ctx).Ends es (.ok vs)) :
    ∃ v, vs = [v] ∧ ∀ identity ex, v = .exception identity ex → ex.isFlow = false := by
  cases ends_rescue.1 h with
  | ok h => exact ⟨.ok, rfl, fun identity ex heq => by cases heq⟩
  | caught h hex identity =>
    refine ⟨_, rfl, fun identity ex heq => ?_⟩
    cases heq
    exact hex

/-- An exception capture fails with the flow signals of its body, and with nothing else. -/
theorem Evaluator.rescue_error_iff {body : Code.Block} {ex : Exception} :
    (e.evalOperand (.rescue body) ctx).Ends es (.error ex) ↔ (e.block body ctx).Ends es (.error ex) ∧ ex.isFlow = true := by
  rw [ends_rescue]
  constructor
  · intro h
    cases h with
    | passed h hex => exact ⟨h, hex⟩
  · rintro ⟨h, hex⟩
    exact .passed h hex

/-- What the middle part of a protected body does, by how the body ended: the third part after success, the handler
after a failure that is no flow signal, and nothing after any other. A handler's variable gets the failure. -/
inductive Evaluator.Handles (e : Evaluator) (handler : Option Code.Handler) (otherwise : Option Code.Block) (ctx : Context) :
    Outcome → List Exchange → Outcome → Prop
  | succeeded {es : List Exchange} {o : Outcome} (h : (e.optional otherwise ctx).Ends es o) :
      Handles e handler otherwise ctx (.ok ()) es o
  | handled {ex : Exception} {body : Code.Block} {es : List Exchange} {o : Outcome} (hex : ex.isFlow = false)
      (hhandler : handler = some ⟨none, body⟩) (h : (e.block body ctx).Ends es o) :
      Handles e handler otherwise ctx (.error ex) es o
  | bound {ex : Exception} {ref : Ref} {body : Code.Block} {es : List Exchange} {o : Outcome} (hex : ex.isFlow = false)
      (hhandler : handler = some ⟨some ref, body⟩) (identity : Nat)
      (h : (do ref.write ctx (.exception identity ex); e.block body ctx).Ends es o) :
      Handles e handler otherwise ctx (.error ex) (⟨.identity, identity⟩ :: es) o
  | unhandled {ex : Exception} (h : handler = none ∨ ex.isFlow = true) :
      Handles e handler otherwise ctx (.error ex) [] (.error ex)

/-- What follows a protected body ends as `Handles` says. -/
theorem Evaluator.ends_afterBody {handler : Option Code.Handler} {otherwise : Option Code.Block} {o r : Outcome} :
    (e.afterBody handler otherwise ctx o).Ends es r ↔ e.Handles handler otherwise ctx o es r := by
  constructor
  · intro h
    rcases o with ex | ⟨⟩
    · cases handler with
      | none =>
        obtain ⟨rfl, rfl⟩ := ends_throw.1 h
        exact .unhandled (.inl rfl)
      | some handler =>
        obtain ⟨ref, body⟩ := handler
        unfold afterBody at h
        dsimp only at h
        split at h
        · rename_i hex
          obtain ⟨rfl, rfl⟩ := ends_throw.1 h
          exact .unhandled (.inr hex)
        · rename_i hex
          have hex' : ex.isFlow = false := Bool.eq_false_iff.2 hex
          cases ref with
          | none => exact .handled hex' rfl h
          | some ref =>
            unfold handle at h
            obtain ⟨identity, rest, rfl, hrest⟩ := ends_ask_bind.1 h
            exact .bound hex' rfl identity hrest
    · exact .succeeded h
  · intro h
    cases h with
    | succeeded h => exact h
    | handled hex hhandler h =>
      subst hhandler
      simp only [afterBody, hex, Bool.false_eq_true, if_false]
      exact h
    | bound hex hhandler identity h =>
      subst hhandler
      simp only [afterBody, hex, Bool.false_eq_true, if_false]
      exact ends_ask_bind.2 ⟨identity, _, rfl, h⟩
    | unhandled h =>
      unfold afterBody
      dsimp only
      split
      · rename_i handler
        rw [if_pos (h.resolve_left (by simp))]
        exact ends_throw.2 ⟨rfl, rfl⟩
      · exact ends_throw.2 ⟨rfl, rfl⟩

/-- A protected body, its middle part and its last part. A failure of the last part replaces whatever came before it. -/
theorem Evaluator.ends_attemptForm {body : Code.Block} {handler : Option Code.Handler}
    {otherwise finally_ : Option Code.Block} {r : Outcome} :
    (e.attemptForm body handler otherwise finally_ ctx).Ends es r ↔ ∃ es₁ es₂ es₃ o₁ o₂ o₃, es = es₁ ++ (es₂ ++ es₃) ∧
      (e.block body ctx).Ends es₁ o₁ ∧ e.Handles handler otherwise ctx o₁ es₂ o₂ ∧ (e.optional finally_ ctx).Ends es₃ o₃ ∧
      r = o₃.bind fun _ => o₂ := by
  unfold attemptForm
  rw [ends_attempt_bind]
  constructor
  · rintro ⟨es₁, rest, o₁, rfl, hbody, h⟩
    obtain ⟨es₂, es₃, o₂, rfl, hafter, h⟩ := ends_attempt_bind.1 h
    rcases ends_bind.1 h with ⟨ex, hfinally, rfl⟩ | ⟨es₃, es₄, ⟨⟩, rfl, hfinally, h⟩
    · exact ⟨es₁, es₂, es₃, o₁, o₂, .error ex, rfl, hbody, ends_afterBody.1 hafter, hfinally, rfl⟩
    · obtain ⟨rfl, rfl⟩ := ends_ofOutcome.1 h
      rw [List.append_nil]
      exact ⟨es₁, es₂, es₃, o₁, r, .ok (), rfl, hbody, ends_afterBody.1 hafter, hfinally, rfl⟩
  · rintro ⟨es₁, es₂, es₃, o₁, o₂, o₃, rfl, hbody, hafter, hfinally, rfl⟩
    refine ⟨es₁, es₂ ++ es₃, o₁, rfl, hbody, ends_attempt_bind.2 ⟨es₂, es₃, o₂, rfl, ends_afterBody.2 hafter, ?_⟩⟩
    cases o₃ with
    | error ex => exact hfinally.bind_error
    | ok => exact hfinally.bind_last (ends_ofOutcome.2 ⟨rfl, rfl⟩)

/-- A flow signal of a protected body is not handled: it leaves the body once its last part is done. -/
theorem Evaluator.attemptForm_passes {body : Code.Block} {handler : Option Code.Handler}
    {otherwise finally_ : Option Code.Block}
    {es₁ es₂ : List Exchange} {ex : Exception} (hbody : (e.block body ctx).Ends es₁ (.error ex)) (hex : ex.isFlow = true)
    (hfinally : (e.optional finally_ ctx).Ends es₂ (.ok ())) :
    (e.attemptForm body handler otherwise finally_ ctx).Ends (es₁ ++ es₂) (.error ex) :=
  ends_attemptForm.2 ⟨_, [], _, _, _, _, rfl, hbody, .unhandled (.inr hex), hfinally, rfl⟩

/-! ## Calls -/

/-- A closure is told whether a definition made it. -/
theorem Code.Lambda.ends_close {op : Code.Lambda} {defined : Option String} {v : Value}
    (h : (op.close defined ctx).Ends es (.ok v)) :
    ∃ c, v = .closure c ∧ c.op = op ∧ c.catchesReturn = defined.isSome := by
  rcases ends_bind.1 h with ⟨ex, -, heq⟩ | ⟨es₁, es₂, captures, rfl, -, hidentity⟩
  · cases heq
  · obtain ⟨identity, rest, rfl, hlast⟩ := ends_ask_bind.1 hidentity
    cases (ends_pure.1 hlast).2
    exact ⟨_, rfl, rfl, rfl⟩

/-- What the end of a closure's body means for its call. -/
def Closure.caught (c : Closure) : Outcome → Outcome
  | .ok () => .ok ()
  | .error ex => if c.catchesReturn && ex.flow? == some .return_ then .ok () else .error ex

/-- How a call of a closure ends: what it was given is refused, or its body ends. -/
inductive Evaluator.Calls (e : Evaluator) (c : Closure) (args : List Value) (opts : List (String × Value)) (ctx : Context) :
    List Exchange → Outcome → Prop
  | refused {cause : Cause} (hbind : c.op.bind args = .error cause) : Calls e c args opts ctx [] (.error (.ofCause cause))
  | rejected {vars : List (String × Value)} {cause : Cause} (hbind : c.op.bind args = .ok vars)
      (hopts : rejectOpts "closure" opts = .error cause) : Calls e c args opts ctx [] (.error (.ofCause cause))
  | ended {vars : List (String × Value)} {frame : FrameId} {es : List Exchange} {o : Outcome}
      (hbind : c.op.bind args = .ok vars)
      (hopts : rejectOpts "closure" opts = .ok ()) (hbody : (e.block c.op.body (ctx.enter frame c.captures)).Ends es o) :
      Calls e c args opts ctx (⟨.activate (some c.home) vars ctx.imports, frame⟩ :: es) (c.caught o)

/-- A call of a closure ends as `Calls` says. -/
theorem Evaluator.ends_callClosure {c : Closure} {args : List Value} {opts : List (String × Value)} {r : Outcome} :
    (e.callClosure c args opts ctx).Ends es r ↔ e.Calls c args opts ctx es r := by
  refine ends_ofExcept_bind.trans ⟨?_, ?_⟩
  · rintro (⟨cause, hbind, rfl, rfl⟩ | ⟨vars, hbind, h⟩)
    · exact .refused hbind
    rcases ends_ofExcept_bind.1 h with ⟨cause, hopts, rfl, rfl⟩ | ⟨⟨⟩, hopts, h⟩
    · exact .rejected hbind hopts
    obtain ⟨frame, rest, rfl, hcall⟩ := ends_ask_bind.1 h
    obtain ⟨es₁, es₂, o, rfl, hbody, hlast⟩ := ends_attempt_bind.1 hcall
    suffices hend : es₂ = [] ∧ r = c.caught o by
      obtain ⟨rfl, rfl⟩ := hend
      rw [List.append_nil]
      exact .ended hbind hopts hbody
    rcases o with ex | ⟨⟩
    · dsimp only at hlast
      split at hlast
      · rename_i hcatch
        rw [Closure.caught, if_pos hcatch]
        exact ends_pure.1 hlast
      · rename_i hcatch
        rw [Closure.caught, if_neg hcatch]
        exact ends_throw.1 hlast
    · exact ends_pure.1 hlast
  · intro h
    cases h with
    | refused hbind => exact .inl ⟨_, hbind, rfl, rfl⟩
    | rejected hbind hopts => exact .inr ⟨_, hbind, ends_ofExcept_bind.2 (.inl ⟨_, hopts, rfl, rfl⟩)⟩
    | @ended vars frame es o hbind hopts hbody =>
      refine .inr ⟨vars, hbind, ends_ofExcept_bind.2 (.inr ⟨(), hopts, ends_ask_bind.2 ⟨frame, es, rfl, ?_⟩⟩)⟩
      refine ends_attempt_bind.2 ⟨es, [], o, (List.append_nil es).symm, hbody, ?_⟩
      rcases o with ex | ⟨⟩
      · simp only [Closure.caught]
        split
        · exact ends_pure.2 ⟨rfl, rfl⟩
        · exact ends_throw.2 ⟨rfl, rfl⟩
      · exact ends_pure.2 ⟨rfl, rfl⟩

/-- No call of a closure that catches `return` ends in `return`. -/
theorem Evaluator.callClosure_not_return {c : Closure} {args : List Value} {opts : List (String × Value)} {ex : Exception}
    (hcatches : c.catchesReturn = true) (h : (e.callClosure c args opts ctx).Ends es (.error ex)) :
    ex.flow? ≠ some .return_ := by
  generalize hr : (.error ex : Outcome) = r at h
  cases ends_callClosure.1 h with
  | refused hbind =>
    cases hr
    simp [Exception.flow?, Exception.ofCause]
  | rejected hbind hopts =>
    cases hr
    simp [Exception.flow?, Exception.ofCause]
  | @ended vars frame es o hbind hopts hbody =>
    rcases o with ex' | ⟨⟩
    · intro hreturn
      simp only [Closure.caught, hcatches, Bool.true_and] at hr
      split at hr
      · cases hr
      · rename_i hne
        cases hr
        exact hne (by simpa using hreturn)
    · cases hr

/-- A call of a closure that does not catch `return` fails as its body does. -/
theorem Evaluator.callClosure_passes {c : Closure} {args : List Value} {vars : List (String × Value)} {frame : FrameId}
    {ex : Exception} (hcatches : c.catchesReturn = false) (hbind : c.op.bind args = .ok vars)
    (hbody : (e.block c.op.body (ctx.enter frame c.captures)).Ends es (.error ex)) :
    (e.callClosure c args [] ctx).Ends (⟨.activate (some c.home) vars ctx.imports, frame⟩ :: es) (.error ex) := by
  have hopts : rejectOpts "closure" [] = .ok () := rfl
  have hcall := ends_callClosure.2 (.ended hbind hopts hbody)
  rwa [Closure.caught, hcatches, Bool.false_and, if_neg Bool.false_ne_true] at hcall

/-- A definition gives its variable a closure that catches `return`. -/
theorem Evaluator.closure_of_define {ref : Ref} {op : Code.Lambda}
    (h : (e.evalSpecial (.define ref op) ctx).Ends es (.ok ())) :
    ∃ es₁ es₂ c, es = es₁ ++ es₂ ∧ c.catchesReturn = true ∧
    (Code.Lambda.close op (some ref.name) ctx).Ends es₁ (.ok (.closure c)) ∧
      (ref.write ctx (.closure c)).Ends es₂ (.ok ()) := by
  rcases ends_bind.1 h with ⟨ex, -, heq⟩ | ⟨es₁, es₂, v, rfl, hclose, hwrite⟩
  · cases heq
  obtain ⟨c, rfl, -, hcatches⟩ := Code.Lambda.ends_close hclose
  exact ⟨es₁, es₂, c, rfl, hcatches, hclose, hwrite⟩

/-- The value of a lambda is a closure that does not catch `return`. -/
theorem Evaluator.closure_of_lambda {op : Code.Lambda} {vs : List Value}
    (h : (e.evalOperand (.lambda op) ctx).Ends es (.ok vs)) : ∃ c, vs = [.closure c] ∧ c.catchesReturn = false := by
  rcases ends_bind.1 h with ⟨ex, -, heq⟩ | ⟨es₁, es₂, v, rfl, hclose, hlast⟩
  · cases heq
  obtain ⟨rfl, heq⟩ := ends_pure.1 hlast
  obtain ⟨c, rfl, -, hcatches⟩ := Code.Lambda.ends_close hclose
  exact ⟨c, Except.ok.inj heq, hcatches⟩

/-! ## Signals that a loop did not get from its body -/

/-- A failure of a loop is one of its rounds, or of the part for no rounds. -/
theorem LoopForm.error {loop : Nat → List Exchange → Outcome → Prop} {otherwise : Eval Unit} {ex : Exception}
    (h : LoopForm loop otherwise es (.error ex)) :
    (∃ n, loop n es (.error ex)) ∨ ∃ es₁ es₂, es = es₁ ++ es₂ ∧ otherwise.Ends es₂ (.error ex) := by
  cases h with
  | ran h => exact .inl ⟨_, h⟩
  | never h ho => exact .inr ⟨_, _, rfl, ho⟩

/-- A condition that fails when it is asked again is the operand that failed. -/
theorem Evaluator.holdsAgain_error {condition : Code.Operand} {ex : Exception}
    (h : (e.holdsAgain condition ctx ()).Ends es (.error ex)) : (e.holds condition ctx).Ends es (.error ex) := by
  obtain ⟨b, hb, heq⟩ := ends_holdsAgain.1 h
  cases b with
  | error ex' =>
    cases heq
    exact hb
  | ok b => cases heq

/-- A flow signal that an operand's value is not had for was raised by the operand. -/
theorem Evaluator.single_error {op : Code.Operand} {what : String} {ex : Exception}
    (h : (e.single op ctx what).Ends es (.error ex))
    (hex : ex.isFlow = true) : (e.operand op ctx).Ends es (.error ex) := by
  rcases ends_bind.1 h with ⟨ex', hop, heq⟩ | ⟨es₁, es₂, vs, rfl, -, hlast⟩
  · cases heq
    exact hop
  · split at hlast
    · cases (ends_pure.1 hlast).2
    · exact absurd hex (Flowless.fail.not_isFlow hlast)

/-- To give a variable the next item raises no flow signal. -/
theorem Ref.writeNext_flowless (ref : Ref) (items : List Value) : (ref.writeNext ctx items).Flowless := by
  cases items with
  | nil => exact .pure
  | cons v items => exact .bind (ref.write_flowless _) fun _ => .pure

/-- To wait for the next item of an input raises no flow signal. -/
theorem Inlet.nextItem_flowless (inlet : Inlet) (bound : Nat) (m : Merging) : (inlet.nextItem bound m).Flowless := by
  induction bound generalizing m with
  | zero => exact fun es ex h => absurd h not_ends_exhausted
  | succ bound ih =>
    unfold nextItem
    refine .bind .ask fun x => ?_
    obtain ⟨step, m'⟩ := x
    dsimp only
    split
    · exact .pure
    · exact .fail
    · exact ih m'

theorem Inputs.next_flowless (bound : Nat) (inputs : Inputs) : (inputs.next bound).Flowless := by
  unfold next
  split
  · exact .pure
  · exact .pure
  · exact .bind (Inlet.nextItem_flowless _ _ _) fun _ => .pure

theorem Inputs.of_flowless (argument : Option Value) : (Inputs.of argument ctx).Flowless := by
  unfold Inputs.of
  split
  · exact .bind .ofExcept fun _ => .pure
  · split <;> exact .pure

/-- A `break` or `continue` that leaves a loop over a condition was raised by the condition or by the part for no rounds. -/
theorem Evaluator.whileLoop_signal {condition : Code.Operand} {body : Code.Block} {otherwise : Option Code.Block}
    {ex : Exception}
    (h : (e.evalSpecial (.whileLoop condition body otherwise) ctx).Ends es (.error ex)) (hex : ex.IsLoopSignal) :
    ∃ es₁ es₂, es = es₁ ++ es₂ ∧
    ((e.holds condition ctx).Ends es₂ (.error ex) ∨ (e.optional otherwise ctx).Ends es₂ (.error ex)) := by
  rcases (whileLoop_ends h).error with ⟨n, hloop⟩ | ⟨es₁, es₂, heq, hother⟩
  · obtain ⟨s, es₁, es₂, heq, hmore⟩ := hloop.signal hex
    exact ⟨es₁, es₂, heq, .inl (holdsAgain_error hmore)⟩
  · exact ⟨es₁, es₂, heq, .inr hother⟩

/-- A `break` or `continue` that leaves a loop over items was raised by the container or by the part for no items. -/
theorem Evaluator.forLoop_signal {ref : Ref} {container : Code.Operand} {body : Code.Block} {otherwise : Option Code.Block}
    {ex : Exception} (h : (e.evalSpecial (.forLoop ref container body otherwise) ctx).Ends es (.error ex))
    (hex : ex.IsLoopSignal) :
    ∃ es₁ es₂, es = es₁ ++ es₂ ∧
    ((e.operand container ctx).Ends es₂ (.error ex) ∨ (e.optional otherwise ctx).Ends es₂ (.error ex)) := by
  rcases ends_forLoop.1 h with ⟨ex', hsingle, heq⟩ | ⟨es₁, es₂, v, rfl, -, ⟨c, -, -, heq⟩ | ⟨items, -, hform⟩⟩
  · cases heq
    exact ⟨[], es, rfl, .inl (single_error hsingle hex.isFlow)⟩
  · cases heq
    cases hex.isFlow
  · rcases hform.error with ⟨n, hloop⟩ | ⟨es₃, es₄, rfl, hother⟩
    · obtain ⟨s, es₃, es₄, -, hmore⟩ := hloop.signal hex
      exact absurd hex.isFlow ((ref.writeNext_flowless s).not_isFlow hmore)
    · exact ⟨es₁ ++ es₃, es₄, by simp, .inr hother⟩

/-- A loop that calls a function on inputs does not end in `break` or `continue`. -/
theorem Evaluator.each_not_signal {args : List Value} {opts : List (String × Value)} {ex : Exception}
    (h : (e.invoke .each args opts ctx).Ends es (.error ex)) : ¬ex.IsLoopSignal := by
  intro hex
  rcases ends_ofExcept_bind.1 h with ⟨c, -, -, heq⟩ | ⟨args, -, h⟩
  · cases heq
    cases hex.isFlow
  rcases each_ends h with ⟨ex', hinputs, heq⟩ | ⟨es₁, es₂, inputs, n, -, -, hloop⟩
  · cases heq
    exact (Inputs.of_flowless _).not_isFlow hinputs hex.isFlow
  · obtain ⟨s, es₃, es₄, -, hmore⟩ := hloop.signal hex
    exact (s.next_flowless _).not_isFlow hmore hex.isFlow

/-! ## Modules -/

namespace Evaluator

variable {spec key : String} {place : PlaceId} {frame : FrameId} {body : Code.Block}

/-- A flow signal does not leave the body of a module. -/
theorem runModule_flowless : (e.runModule spec key body ctx).Flowless := by
  refine .bind .ask fun frame es ex h => ?_
  obtain ⟨es₁, es₂, o, rfl, -, hlast⟩ := ends_attempt_bind.1 h
  rcases o with ex' | ⟨⟩
  · dsimp only at hlast
    split at hlast
    · exact Flowless.fail _ _ hlast
    · rename_i hflow
      cases (ends_throw.1 hlast).2
      exact Exception.isFlow_false_iff.2 hflow
  · exact Flowless.ask _ _ hlast

/-- The evaluation of a module raises no flow signal. -/
theorem evalModule_flowless : (e.evalModule spec key ctx).Flowless := by
  refine .bind .ask fun fetched => .bind .ofExcept fun chunk => ?_
  split
  · exact runModule_flowless
  · exact .fail

/-- Whoever initialises a module gets no flow signal from it. -/
theorem initModule_flowless : (e.initModule spec key place ctx).Flowless := by
  refine .bind .ask fun claimed => ?_
  cases claimed with
  | some ns => exact .pure
  | none =>
    intro es ex h
    obtain ⟨es₁, es₂, o, rfl, heval, hlast⟩ := ends_attempt_bind.1 h
    cases o with
    | ok ns => exact Flowless.bind .ask (fun _ => .pure) _ _ hlast
    | error ex' =>
      obtain ⟨⟨⟩, rest, rfl, hthrow⟩ := ends_ask_bind.1 hlast
      cases (ends_throw.1 hthrow).2
      exact evalModule_flowless _ _ heval

/-- No flow signal leaves a module. -/
theorem loadModule_flowless : (e.loadModule spec ctx).Flowless := by
  refine .bind .ask fun resolved => .bind .ofExcept fun key => ?_
  split
  · exact .fail
  · exact .bind .ask fun place => initModule_flowless

/-- A flow signal that would leave a module's body is a failure of the module, whose place is then vacant. -/
theorem ends_initModule_of_flow {chunk : Source.Chunk} {scope : Scope} {ex : Exception} {flow : Flow}
    (hcompile : chunk.compile key (.ofGlobals []) = (.ok body, scope))
    (hbody : (e.block body (ctx.enterModule frame key)).Ends es (.error ex)) (hflow : ex.flow? = some flow) :
    (e.initModule spec key place ctx).Ends
      (⟨.claimModule key place, none⟩ :: ⟨.fetchModule key, .ok chunk⟩ :: ⟨.activate none [] (ctx.imports ++ [key]),
        frame⟩ :: es ++ [⟨.settleModule key place none, ()⟩])
      (.error (.ofCause (.module s!"{key}: {flow.name} escaped the module body"))) := by
  have hrun : (e.runModule spec key body ctx).Ends (⟨.activate none [] (ctx.imports ++ [key]), frame⟩ :: es)
      (.error (.ofCause (.module s!"{key}: {flow.name} escaped the module body"))) := by
    refine ends_ask_bind.2 ⟨frame, es, rfl, ends_attempt_bind.2 ⟨es, [], _, (List.append_nil es).symm, hbody, ?_⟩⟩
    dsimp only
    rw [hflow]
    exact ends_fail.2 ⟨rfl, rfl⟩
  have heval : (e.evalModule spec key ctx).Ends
      (⟨.fetchModule key, .ok chunk⟩ :: ⟨.activate none [] (ctx.imports ++ [key]), frame⟩ :: es)
      (.error (.ofCause (.module s!"{key}: {flow.name} escaped the module body"))) := by
    refine ends_ask_bind.2 ⟨_, _, rfl, ends_ofExcept_bind.2 (.inr ⟨chunk, rfl, ?_⟩)⟩
    rw [hcompile]
    exact hrun
  refine ends_ask_bind.2 ⟨none, _, rfl, ends_attempt_bind.2 ⟨_, _, _, rfl, heval, ?_⟩⟩
  exact ends_ask_bind.2 ⟨(), [], rfl, ends_throw.2 ⟨rfl, rfl⟩⟩

/-- A flow signal of a module's body is a failure of whoever loads the module. -/
theorem ends_loadModule_of_flow {chunk : Source.Chunk} {scope : Scope} {ex : Exception} {flow : Flow}
    (hcompile : chunk.compile key (.ofGlobals []) = (.ok body, scope))
    (hbody : (e.block body (ctx.enterModule frame key)).Ends es (.error ex)) (hflow : ex.flow? = some flow)
    (himports : ctx.imports.contains key = false) :
    (e.loadModule spec ctx).Ends
      (⟨.resolveModule ctx.kernel spec, .ok key⟩ :: ⟨.findModule key, place⟩ :: ⟨.claimModule key place, none⟩ ::
        ⟨.fetchModule key, .ok chunk⟩ :: ⟨.activate none [] (ctx.imports ++ [key]), frame⟩ :: es ++
        [⟨.settleModule key place none, ()⟩])
      (.error (.ofCause (.module s!"{key}: {flow.name} escaped the module body"))) := by
  refine ends_ask_bind.2 ⟨_, _, rfl, ends_ofExcept_bind.2 (.inr ⟨key, rfl, ?_⟩)⟩
  rw [if_neg (by rw [himports]; exact Bool.false_ne_true)]
  exact ends_ask_bind.2 ⟨place, _, rfl, ends_initModule_of_flow hcompile hbody hflow⟩

end Evaluator

/-- A place that is settled without a namespace is no module that was loaded. -/
theorem World.get?_settle_none (w : World) (who : TaskId) {key : String} {place : PlaceId}
    (hplace : Named.get? w.modules.entries key = some place) :
    (w.perform who (.settleModule key place none)).2.modules.get? key = none := by
  simp only [World.perform, ModuleCache.settle, ModuleCache.put, ModuleCache.get?, ModuleCache.state, hplace,
    Option.map_some]
  by_cases hlt : place < w.modules.places.size
  · simp [hlt]
  · simp [hlt]

/-! ## Pipelines -/

/-- A failure that is the only one that counts is the outcome of the pipeline, as it is. -/
theorem composeOutcomes_single {outcomes : List Outcome} {ex : Exception} (h : countedFailures outcomes = [ex])
    (place : Place) : composeOutcomes outcomes place = .error ex := by
  rw [composeOutcomes, h]

/-- A pipeline of several forms ends with what is composed of their outcomes. -/
theorem Evaluator.ends_evalForeground {p : Code.Pipeline} (hforms : 2 ≤ p.forms.length) {ids : List TaskId}
    {outcomes : List Outcome} {es₁ es₂ : List Exchange} (hstart : (startForms ctx none p.forms).Ends es₁ (.ok ids))
    (hjoin : (joinAll ids).Ends es₂ (.ok outcomes)) :
    (e.evalForeground p ctx).Ends (es₁ ++ es₂) (composeOutcomes outcomes p.place) := by
  unfold evalForeground
  split
  · rename_i hnil
    simp [hnil] at hforms
  · rename_i form hone
    simp [hone] at hforms
  · exact hstart.bind (hjoin.bind_last (ends_ofOutcome.2 ⟨rfl, rfl⟩))

/-! ## The boundaries -/

/-- Each construct takes up the flow signals that are meant for it and lets the others through as they are. -/
structure Evaluator.FlowBoundaries (e : Evaluator) : Prop where
  /-- The value of an exception capture is no flow signal. -/
  rescue_value : ∀ {body ctx es vs}, (e.evalOperand (.rescue body) ctx).Ends es (.ok vs) →
    ∃ v, vs = [v] ∧ ∀ identity ex, v = .exception identity ex → ex.isFlow = false
  /-- A flow signal that is raised in an exception capture, and no other failure, leaves it as it is. -/
  rescue_passes : ∀ {body ctx es ex},
    (e.evalOperand (.rescue body) ctx).Ends es (.error ex) ↔ (e.block body ctx).Ends es (.error ex) ∧ ex.isFlow = true
  /-- A protected body ends, then what follows it, then the last part. What follows is a handler, whose variable gets
  the failure, only if that is no flow signal (`Handles`). -/
  protected_ends : ∀ {body handler otherwise finally_ ctx es r},
    (e.evalSpecial (.attempt body handler otherwise finally_) ctx).Ends es r ↔ ∃ es₁ es₂ es₃ o₁ o₂ o₃,
    es = es₁ ++ (es₂ ++ es₃) ∧
      (e.block body ctx).Ends es₁ o₁ ∧ e.Handles handler otherwise ctx o₁ es₂ o₂ ∧ (e.optional finally_ ctx).Ends es₃ o₃ ∧
      r = o₃.bind fun _ => o₂
  /-- A flow signal that is raised in a protected body leaves it as it is, once its last part is done. -/
  protected_passes : ∀ {body handler otherwise finally_ ctx es₁ es₂ ex}, (e.block body ctx).Ends es₁ (.error ex) →
    ex.isFlow = true → (e.optional finally_ ctx).Ends es₂ (.ok ()) →
    (e.evalSpecial (.attempt body handler otherwise finally_) ctx).Ends (es₁ ++ es₂) (.error ex)
  /-- What a definition gives to its variable is a closure no call of which ends in `return`. -/
  function_catches : ∀ {ref op ctx es}, (e.evalSpecial (.define ref op) ctx).Ends es (.ok ()) →
    ∃ es₁ es₂ c, es = es₁ ++ es₂ ∧
    (Code.Lambda.close op (some ref.name) ctx).Ends es₁ (.ok (.closure c)) ∧ (ref.write ctx (.closure c)).Ends es₂ (.ok ()) ∧
    ∀ {args opts ctx es ex}, (e.callClosure c args opts ctx).Ends es (.error ex) → ex.flow? ≠ some .return_
  /-- A call of any other closure lets `return` through as it is. -/
  lambda_passes : ∀ {op ctx es vs}, (e.evalOperand (.lambda op) ctx).Ends es (.ok vs) → ∃ c, vs = [.closure c] ∧
    ∀ {args vars ctx frame es ex}, c.op.bind args = .ok vars →
    (e.block c.op.body (ctx.enter frame c.captures)).Ends es (.error ex) →
      (e.callClosure c args [] ctx).Ends (⟨.activate (some c.home) vars ctx.imports, frame⟩ :: es) (.error ex)
  /-- A loop over a condition ends as loops do (`Loop`): its body's `break` and `continue` are news for it, its other
  failures leave it. -/
  while_ends : ∀ {condition body otherwise ctx es r}, (e.evalSpecial (.whileLoop condition body otherwise) ctx).Ends es r →
    LoopForm (fun n => Loop (e.holdsAgain condition ctx) (fun _ => e.block body ctx) n ()) (e.optional otherwise ctx) es r
  ends_while : ∀ {condition body otherwise ctx es r},
    LoopForm (fun n es r => n < e.bound ∧ Loop (e.holdsAgain condition ctx) (fun _ => e.block body ctx) n () es r)
      (e.optional otherwise ctx) es r → (e.evalSpecial (.whileLoop condition body otherwise) ctx).Ends es r
  /-- A `break` or `continue` that leaves the loop was raised by its condition or by the part for no rounds. -/
  while_signal : ∀ {condition body otherwise ctx es ex},
    (e.evalSpecial (.whileLoop condition body otherwise) ctx).Ends es (.error ex) →
    ex.IsLoopSignal → ∃ es₁ es₂, es = es₁ ++ es₂ ∧
      ((e.holds condition ctx).Ends es₂ (.error ex) ∨ (e.optional otherwise ctx).Ends es₂ (.error ex))
  /-- A loop over the items of a container ends as loops do. -/
  for_ends : ∀ {ref container body otherwise ctx es r},
    (e.evalSpecial (.forLoop ref container body otherwise) ctx).Ends es r ↔
    (∃ ex, (e.single container ctx "for container").Ends es (.error ex) ∧ r = .error ex) ∨
    ∃ es₁ es₂ v, es = es₁ ++ es₂ ∧ (e.single container ctx "for container").Ends es₁ (.ok v) ∧
      ((∃ c, v.iterate = .error c ∧ es₂ = [] ∧ r = .error (.ofCause c)) ∨ ∃ items, v.iterate = .ok items ∧
        LoopForm (fun n => Loop (ref.writeNext ctx) (fun _ => e.block body ctx) n items) (e.optional otherwise ctx) es₂ r)
  /-- A `break` or `continue` that leaves the loop was raised by its container or by the part for no items. -/
  for_signal : ∀ {ref container body otherwise ctx es ex},
    (e.evalSpecial (.forLoop ref container body otherwise) ctx).Ends es (.error ex) → ex.IsLoopSignal →
    ∃ es₁ es₂, es = es₁ ++ es₂ ∧
      ((e.operand container ctx).Ends es₂ (.error ex) ∨ (e.optional otherwise ctx).Ends es₂ (.error ex))
  /-- A loop over inputs that calls a function ends as loops do. -/
  each_ends : ∀ {args ctx es r}, (e.runBuiltin .each args ctx).Ends es r →
    (∃ ex, (Inputs.of args.positional[1]? ctx).Ends es (.error ex) ∧ r = .error ex) ∨
    ∃ es₁ es₂ inputs n, es = es₁ ++ es₂ ∧ (Inputs.of args.positional[1]? ctx).Ends es₁ (.ok inputs) ∧
      Loop (Inputs.next e.bound) (fun v => e.call (args.positional.head?.getD .empty) [v] [] ctx) n inputs es₂ r
  ends_each : ∀ {args ctx es₁ es₂ inputs n r}, (Inputs.of args.positional[1]? ctx).Ends es₁ (.ok inputs) →
    Loop (Inputs.next e.bound) (fun v => e.call (args.positional.head?.getD .empty) [v] [] ctx) n inputs es₂ r →
    n < e.bound → (e.runBuiltin .each args ctx).Ends (es₁ ++ es₂) r
  /-- It does not end in `break` or `continue` at all. -/
  each_signal : ∀ {args opts ctx es ex}, (e.invoke .each args opts ctx).Ends es (.error ex) → ¬ex.IsLoopSignal
  /-- Loading a module does not end in a flow signal. -/
  use_flowless : ∀ {spec ref ctx es ex}, (e.evalSpecial (.load spec ref) ctx).Ends es (.error ex) → ex.isFlow = false
  /-- A flow signal that would leave a module's body is a failure of the module instead, and the module's place is
  vacated. -/
  use_escape : ∀ {spec key place frame body chunk scope ctx es ex flow}, chunk.compile key (.ofGlobals []) =
    (.ok body, scope) →
    (e.block body (ctx.enterModule frame key)).Ends es (.error ex) → ex.flow? = some flow →
    ctx.imports.contains key = false → (e.loadModule spec ctx).Ends
      (⟨.resolveModule ctx.kernel spec, .ok key⟩ :: ⟨.findModule key, place⟩ :: ⟨.claimModule key place, none⟩ ::
        ⟨.fetchModule key, .ok chunk⟩ :: ⟨.activate none [] (ctx.imports ++ [key]), frame⟩ :: es ++
        [⟨.settleModule key place none, ()⟩])
      (.error (.ofCause (.module s!"{key}: {flow.name} escaped the module body")))
  /-- A module whose place was vacated is not among those that were loaded. -/
  use_uncached : ∀ {w : World} {who key place}, Named.get? w.modules.entries key = some place →
    (w.perform who (.settleModule key place none)).2.modules.get? key = none
  /-- A pipeline of one form ends as its form. -/
  single_form : ∀ {p form ctx es r}, p.forms = [form] →
    ((e.evalForeground p ctx).Ends es r ↔ (e.form form ctx .loose).Ends es r)
  /-- A pipeline of several forms whose only failure that counts is a flow signal ends in that signal. -/
  pipeline_passes : ∀ {p ctx es₁ es₂ ids outcomes ex}, 2 ≤ p.forms.length →
    (startForms ctx none p.forms).Ends es₁ (.ok ids) →
    (joinAll ids).Ends es₂ (.ok outcomes) → countedFailures outcomes = [ex] → ex.isFlow = true →
    (e.evalForeground p ctx).Ends (es₁ ++ es₂) (.error ex)

/-- Flow signals end at their own boundaries and nowhere else, in every program and whatever the machine answers. -/
theorem Evaluator.flowBoundaries (e : Evaluator) : e.FlowBoundaries where
  rescue_value := value_of_rescue
  rescue_passes := rescue_error_iff
  protected_ends := ends_attemptForm
  protected_passes := attemptForm_passes
  function_catches h := by
    obtain ⟨es₁, es₂, c, heq, hcatches, hclose, hwrite⟩ := closure_of_define h
    exact ⟨es₁, es₂, c, heq, hclose, hwrite, callClosure_not_return hcatches⟩
  lambda_passes h := by
    obtain ⟨c, heq, hcatches⟩ := closure_of_lambda h
    exact ⟨c, heq, callClosure_passes hcatches⟩
  while_ends := whileLoop_ends
  ends_while := ends_whileLoop
  while_signal := whileLoop_signal
  for_ends := ends_forLoop
  for_signal := forLoop_signal
  each_ends := each_ends
  ends_each := ends_each
  each_signal := each_not_signal
  use_flowless h := Flowless.bind loadModule_flowless (fun _ => Ref.write_flowless _ _) _ _ h
  use_escape := ends_loadModule_of_flow
  use_uncached := World.get?_settle_none _ _
  single_form hforms := by
    unfold evalForeground
    rw [hforms]
  pipeline_passes hforms hstart hjoin hcounted _ := by
    rw [← composeOutcomes_single hcounted]
    exact ends_evalForeground hforms hstart hjoin

end DualShell
