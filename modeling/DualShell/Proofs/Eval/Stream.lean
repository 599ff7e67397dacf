import DualShell.Eval.Stream
import DualShell.Proofs.Machine.Discipline

/-!
# Reading and writing keep every contract

Code that reads and writes asks about streams and values only, so it is safe under every discipline: what it reads is sound
(`Inlet.nextItem_safe`), what it puts has to be (`Context.putAll_safe`), and a loop over inputs is as safe as its visitor
(`Inputs.visit_safe`).
-/

namespace DualShell

open Eval

variable {D : Discipline} {K : Course D}

/-! ## Bytes -/

/-- Bytes suit everybody, so all of them may be written. -/
theorem Outlet.writeAll_harmless (o : Outlet) (bound : Nat) (data : Bytes) : (o.writeAll bound data).Harmless K := by
  induction bound generalizing data with
  | zero => exact .exhausted
  | succ bound ih =>
    intro s
    unfold Outlet.writeAll
    split
    · exact .pure trivial
    · refine Safe.bind (Safe.ask_plain trivial trivial) fun x s' _ hx => ?_
      exact Safe.andThen (Safe.ofPlain hx) fun n s'' _ => ih _ _

/-- A line may be read by anybody. -/
theorem Inlet.nextLine_harmless (i : Inlet) (bound : Nat) : (i.nextLine bound).Harmless K := by
  induction bound with
  | zero => exact .exhausted
  | succ bound ih =>
    intro s
    unfold Inlet.nextLine
    refine Safe.bind (Safe.ask_plain trivial trivial) fun x s' _ hx => ?_
    split
    · exact .pure trivial
    · exact .fail hx
    · exact ih s'

/-- Anybody may read to the end. -/
theorem Inlet.readAll_harmless (i : Inlet) (bound : Nat) : (i.readAll bound).Harmless K := by
  induction bound with
  | zero => exact .exhausted
  | succ bound ih =>
    intro s
    unfold Inlet.readAll
    refine Safe.bind (Safe.ask_plain trivial trivial) fun x s' _ hx => ?_
    split
    · exact .pure trivial
    · exact .fail hx
    · exact ih s'

/-- Anybody may read some bytes. -/
theorem Inlet.readSome_harmless (i : Inlet) (count bound : Nat) : (i.readSome count bound).Harmless K := by
  induction bound with
  | zero => exact .exhausted
  | succ bound ih =>
    intro s
    unfold Inlet.readSome
    refine Safe.bind (Safe.ask_plain trivial trivial) fun x s' _ hx => ?_
    split
    · exact .pure trivial
    · exact .fail hx
    · exact ih s'

namespace Context

variable (ctx : Context)

/-- A descriptor that is not open for writing is a plain failure. -/
theorem expectOutput_plain (q : Quality) (fd : Nat) : q.Plain (ctx.descriptors.expectOutput fd) := by
  unfold Descriptors.expectOutput
  split <;> trivial

/-- A text may be written by anybody. -/
theorem writeTo_harmless (bound fd : Nat) (text : String) : (ctx.writeTo bound fd text).Harmless K :=
  Harmless.bind (Harmless.ofExcept fun q => ctx.expectOutput_plain q fd) fun o => o.writeAll_harmless bound _

/-! ## Values -/

/-- A sound value may be put. -/
theorem put_safe {v : Value} {s : D.State} (h : v.Sound (D.quality s)) : (ctx.put v).Safe K anything s := by
  refine Safe.andThen (Safe.ofPlain (ctx.expectOutput_plain _ 1)) fun o s' hs => ?_
  have hv := h.mono (K.quality_mono hs)
  exact Safe.bind (Safe.ask_plain trivial hv) fun x s'' _ hx => .ofPlain hx

/-- Sound values may be put. -/
theorem putAll_safe {vs : List Value} {s : D.State} (h : Value.AllSound (D.quality s) vs) :
    (ctx.putAll vs).Safe K anything s := by
  induction vs generalizing s with
  | nil => exact .pure trivial
  | cons v vs ih =>
    refine (ctx.put_safe (h v List.mem_cons_self)).andThen fun _ s' hs => ih fun v' hv' => ?_
    exact (h v' (List.mem_cons_of_mem _ hv')).mono (K.quality_mono hs)

end Context

/-- The next item of an input is a sound value. -/
theorem Inlet.nextItem_safe (i : Inlet) (bound : Nat) (m : Merging) (s : D.State) :
    (i.nextItem bound m).Safe K (fun x s' => ∀ v, x.1 = some v → v.Sound (D.quality s')) s := by
  induction bound generalizing m s with
  | zero => exact .exhausted
  | succ bound ih =>
    unfold Inlet.nextItem
    refine Safe.bind (Safe.ask_plain trivial trivial) fun x s' _ hx => ?_
    obtain ⟨step, m'⟩ := x
    dsimp only
    split
    · exact .pure hx
    · exact .fail hx
    · exact ih m' s'

/-! ## Loops over inputs -/

/-- The items that inputs hold already are sound. -/
def Inputs.Sound (q : Quality) : Inputs → Prop
  | .given items => Value.AllSound q items
  | .stream .. => True

/-- The inputs of a loop are sound: those of an argument, or the items of the input. -/
theorem Inputs.of_safe {argument : Option Value} {s : D.State} (h : ∀ v, argument = some v → v.Sound (D.quality s))
    (ctx : Context) : (Inputs.of argument ctx).Safe K (fun inputs s' => inputs.Sound (D.quality s')) s := by
  unfold Inputs.of
  split
  · rename_i v
    refine (Safe.ofExcept (Q := fun items s' => Value.AllSound (D.quality s') items) (h v rfl).iterate).bind
      fun items s' _ hi => ?_
    exact .pure hi
  · split
    · exact .pure trivial
    · exact .pure (List.forall_mem_nil _)

/-- A round of a loop is as safe as its body. -/
theorem Eval.Safe.round {body : Eval Unit} {s : D.State} (h : body.Safe K anything s) :
    (Eval.round body).Safe K anything s := by
  unfold Eval.round
  refine h.attempt_outcome.bind fun o s' _ ho => ?_
  split
  · exact .pure trivial
  · rename_i hstep
    exact .throw (ho.loopStep hstep)

variable {visit : Value → Eval LoopStep}

/-- Every visit from a state on is safe. -/
def VisitsSafe (K : Course D) (visit : Value → Eval LoopStep) (s : D.State) : Prop :=
  ∀ v s', K.Leads s s' → v.Sound (D.quality s') → (visit v).Safe K anything s'

/-- Visits that are safe are so later, too. -/
theorem VisitsSafe.later {s s' : D.State} (h : VisitsSafe K visit s) (hs : K.Leads s s') : VisitsSafe K visit s' :=
  fun v s'' hs' => h v s'' (K.trans hs hs')

/-- Items are visited one after another. -/
theorem visitItems_safe {items : List Value} {s : D.State} (hvisit : VisitsSafe K visit s)
    (h : Value.AllSound (D.quality s) items) : (visitItems visit items).Safe K anything s := by
  induction items generalizing s with
  | nil => exact .pure trivial
  | cons v vs ih =>
    refine (hvisit v s (K.refl s) (h v List.mem_cons_self)).andThen fun step s' hs => ?_
    cases step with
    | next => exact ih (hvisit.later hs) fun v' hv' => (h v' (List.mem_cons_of_mem _ hv')).mono (K.quality_mono hs)
    | stop => exact .pure trivial

/-- The items of an input are visited as they come. -/
theorem visitStream_safe (bound : Nat) (inlet : Inlet) (rounds : Nat) (m : Merging) {s : D.State}
    (hvisit : VisitsSafe K visit s) : (visitStream bound visit inlet rounds m).Safe K anything s := by
  induction rounds generalizing m s with
  | zero => exact .exhausted
  | succ rounds ih =>
    unfold visitStream
    refine (inlet.nextItem_safe bound m s).bind fun x s' hs hx => ?_
    split
    · exact .pure trivial
    · refine (hvisit _ s' hs (hx _ rfl)).andThen fun step s'' hs' => ?_
      cases step with
      | next => exact ih _ (hvisit.later (K.trans hs hs'))
      | stop => exact .pure trivial

/-- Taking what comes through a stream is safe anywhere. -/
theorem gather_harmless (side : Side) (c : ChannelId) (k : CollectorId) (bound : Nat) :
    (gather side c k bound).Harmless K := by
  intro s
  refine visitStream_safe bound (.channel c) bound side.only fun v s' _ hv => ?_
  refine Safe.bind (Safe.ask_plain trivial hv) fun x s'' _ hx => ?_
  exact Safe.andThen (Safe.ofPlain hx) fun _ _ _ => .pure trivial

/-- A loop over inputs is safe if each visit is. -/
theorem Inputs.visit_safe {inputs : Inputs} (bound : Nat) {s : D.State} (hvisit : VisitsSafe K visit s)
    (h : inputs.Sound (D.quality s)) : (inputs.visit bound visit).Safe K anything s := by
  cases inputs with
  | given items => exact visitItems_safe hvisit h
  | stream inlet m => exact visitStream_safe bound inlet bound m hvisit

end DualShell
