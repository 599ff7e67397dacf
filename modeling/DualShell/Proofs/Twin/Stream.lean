import DualShell.Eval.Stream
import DualShell.Proofs.Eval.Stream
import DualShell.Proofs.Twin.Task

/-!
# Reading and writing under other numbers

Code that reads and writes at renamed ends is the twin of the same code at the ends themselves: what it reads is the same
(`Inlet.nextItem_twin`), and so is what it puts (`Context.putAll_twin`). A loop over inputs is a twin if its visits are
(`Inputs.visit_twin`).
-/

namespace DualShell

open Eval

variable {S : Scheme}

/-! ## Bytes -/

/-- Bytes are written alike to an end that may be written to. -/
theorem Outlet.writeAll_twin {o : Outlet} (ho : o.Writable S.toRenaming) (bound : Nat) (data : Bytes) :
    Twin S anyway (o.writeAll bound data) ((o.rename S.toRenaming).writeAll bound data) := by
  induction bound generalizing data with
  | zero => exact .exhausted
  | succ bound ih =>
    unfold writeAll
    split
    · exact .pure rfl
    · refine Twin.bind (.ask (r := .write o data) ho fun _ _ => rfl) fun x _ hx => ?_
      cases hx
      exact (Twin.plainly x).andThen fun n => ih _

/-- The next line is the same. -/
theorem Inlet.nextLine_twin (i : Inlet) (bound : Nat) :
    Twin S anyway (i.nextLine bound) ((i.rename S.toRenaming).nextLine bound) := by
  induction bound with
  | zero => exact .exhausted
  | succ bound ih =>
    unfold nextLine
    refine Twin.bind (.ask (r := .line i) trivial fun _ _ => rfl) fun x _ hx => ?_
    cases hx
    split
    · exact .pure rfl
    · exact .fail _
    · exact ih

/-- All bytes up to the end are the same. -/
theorem Inlet.readAll_twin (i : Inlet) (bound : Nat) :
    Twin S anyway (i.readAll bound) ((i.rename S.toRenaming).readAll bound) := by
  induction bound with
  | zero => exact .exhausted
  | succ bound ih =>
    unfold readAll
    refine Twin.bind (.ask (r := .toEnd i) trivial fun _ _ => rfl) fun x _ hx => ?_
    cases hx
    split
    · exact .pure rfl
    · exact .fail _
    · exact ih

/-- As many bytes are read. -/
theorem Inlet.readSome_twin (i : Inlet) (count bound : Nat) :
    Twin S anyway (i.readSome count bound) ((i.rename S.toRenaming).readSome count bound) := by
  induction bound with
  | zero => exact .exhausted
  | succ bound ih =>
    unfold readSome
    refine Twin.bind (.ask (r := .upTo i count) trivial fun _ _ => rfl) fun x _ hx => ?_
    cases hx
    split
    · exact .pure rfl
    · exact .fail _
    · exact ih

/-- What is looked up in a renamed table is what was there, renamed. -/
theorem Descriptors.expectOutput_twin {t : Descriptors} (h : t.Usable S.toRenaming) (fd : Nat) :
    Twin S (fun o o' => o' = o.rename S.toRenaming ∧ o.Writable S.toRenaming) (ofExcept (t.expectOutput fd))
      (ofExcept ((t.rename S.toRenaming).expectOutput fd)) := by
  rw [expectOutput_rename]
  cases ho : t.expectOutput fd with
  | ok o => exact .pure ⟨rfl, h.expectOutput ho⟩
  | error c => exact .fail c

namespace Context

variable {ctx : Context} (hctx : ctx.Usable S.toRenaming)
include hctx

/-- A text is written alike to a descriptor. -/
theorem writeTo_twin (bound fd : Nat) (text : String) :
    Twin S anyway (ctx.writeTo bound fd text) ((ctx.rename S.toRenaming).writeTo bound fd text) :=
  (Descriptors.expectOutput_twin hctx.descriptors fd).bind fun _ _ ⟨ho, hw⟩ => ho ▸ Outlet.writeAll_twin hw bound _

/-! ## Values -/

/-- A value is put alike. -/
theorem put_twin {v : Value} (hv : S.law.value v) : Twin S anyway (ctx.put v) ((ctx.rename S.toRenaming).put v) := by
  refine (Descriptors.expectOutput_twin hctx.descriptors 1).bind fun o _ ⟨ho, hw⟩ => ?_
  subst ho
  refine Twin.bind (.ask (r := .put o v) ⟨hw, hv⟩ fun _ _ => rfl) fun x _ hx => ?_
  cases hx
  exact .plainly x

theorem putAll_twin {vs : List Value} (h : S.law.values vs) :
    Twin S anyway (ctx.putAll vs) ((ctx.rename S.toRenaming).putAll vs) := by
  induction vs with
  | nil => exact .pure rfl
  | cons v vs ih =>
    obtain ⟨hv, hvs⟩ := List.forall_mem_cons.1 h
    exact (put_twin hctx hv).andThen fun _ => ih hvs

end Context

/-- The next item is the same, in the same order of turns. -/
theorem Inlet.nextItem_twin (i : Inlet) (bound : Nat) (m : Merging) :
    Twin S (Same fun x => ∀ v, x.1 = some v → S.law.value v) (i.nextItem bound m)
    ((i.rename S.toRenaming).nextItem bound m) := by
  induction bound generalizing m with
  | zero => exact .exhausted
  | succ bound ih =>
    unfold nextItem
    refine Twin.bind (.ask (r := .item i m) trivial fun _ _ => rfl) fun _ x h => ?_
    obtain ⟨heq, hx⟩ := h
    subst heq
    obtain ⟨step, m'⟩ := x
    dsimp only
    split
    · exact .pure ⟨rfl, fun v hv => hx v (congrArg Step.done hv)⟩
    · exact .fail _
    · exact ih m'

/-! ## Loops over inputs -/

/-- Inputs under other numbers. -/
def Inputs.rename (ρ : Renaming) : Inputs → Inputs
  | .given items => .given items
  | .stream inlet m => .stream (inlet.rename ρ) m

/-- The items that inputs hold already are lawful. -/
def Inputs.Lawful (L : Law) : Inputs → Prop
  | .given items => L.values items
  | .stream .. => True

/-- The inputs of a loop are counterparts. -/
theorem Inputs.of_twin {argument : Option Value} (h : ∀ v, argument = some v → S.law.value v) (ctx : Context) :
    Twin S (fun i i' => i' = i.rename S.toRenaming ∧ i.Lawful S.law) (Inputs.of argument ctx)
      (Inputs.of argument (ctx.rename S.toRenaming)) := by
  unfold Inputs.of
  split
  · rename_i v
    refine (Twin.ofExcept (S.law.iterate (h v rfl))).bind fun items _ ⟨heq, hitems⟩ => ?_
    subst heq
    exact .pure ⟨rfl, hitems⟩
  · rw [Context.rename_descriptors, Descriptors.input?_rename]
    cases ctx.descriptors.input? 0 with
    | none => exact .pure ⟨rfl, List.forall_mem_nil _⟩
    | some inlet => exact .pure ⟨rfl, trivial⟩

/-- A round of a loop ends alike. -/
theorem Eval.Twin.round {body body' : Eval Unit} (h : Twin S anyway body body') :
    Twin S anyway (Eval.round body) (Eval.round body') := by
  refine h.attempt_outcome.bind fun o _ ⟨heq, ho⟩ => ?_
  subst heq
  split
  · exact .pure rfl
  · rename_i ex hstep
    refine .throw ?_
    unfold loopStep at hstep
    split at hstep
    · nomatch hstep
    · split at hstep
      · nomatch hstep
      · nomatch hstep
      · cases hstep
        exact Law.outcome_error.1 ho

variable {visit visit' : Value → Eval LoopStep}

/-- Items are visited alike. -/
theorem visitItems_twin {items : List Value} (hvisit : ∀ v, S.law.value v → Twin S anyway (visit v) (visit' v))
    (h : S.law.values items) : Twin S anyway (visitItems visit items) (visitItems visit' items) := by
  induction items with
  | nil => exact .pure rfl
  | cons v vs ih =>
    obtain ⟨hv, hvs⟩ := List.forall_mem_cons.1 h
    refine (hvisit v hv).andThen fun step => ?_
    cases step with
    | next => exact ih hvs
    | stop => exact .pure rfl

/-- The items of an input are visited alike as they come. -/
theorem visitStream_twin (bound : Nat) (inlet : Inlet) (rounds : Nat) (m : Merging)
    (hvisit : ∀ v, S.law.value v → Twin S anyway (visit v) (visit' v)) :
    Twin S anyway (visitStream bound visit inlet rounds m)
    (visitStream bound visit' (inlet.rename S.toRenaming) rounds m) := by
  induction rounds generalizing m with
  | zero => exact .exhausted
  | succ rounds ih =>
    unfold visitStream
    refine (inlet.nextItem_twin bound m).bind fun x _ h => ?_
    obtain ⟨heq, hx⟩ := h
    subst heq
    split
    · exact .pure rfl
    · refine (hvisit _ (hx _ rfl)).andThen fun step => ?_
      cases step with
      | next => exact ih _
      | stop => exact .pure rfl

/-- Taking what comes through a stream. -/
theorem gather_twin (side : Side) (c : ChannelId) (k : CollectorId) (bound : Nat) :
    Twin S anyway (gather side c k bound) (gather side (S.channel c) (S.collector k) bound) := by
  refine visitStream_twin bound (.channel c) bound side.only fun v hv => ?_
  refine Twin.bind (.ask (r := .put (.collector k) v) ⟨trivial, hv⟩ fun _ _ => rfl) fun x _ hx => ?_
  cases hx
  exact (Twin.plainly x).andThen fun _ => .pure rfl

/-- A loop over inputs. -/
theorem Inputs.visit_twin {inputs : Inputs} (h : inputs.Lawful S.law) (bound : Nat)
    (hvisit : ∀ v, S.law.value v → Twin S anyway (visit v) (visit' v)) :
    Twin S anyway (inputs.visit bound visit) ((inputs.rename S.toRenaming).visit bound visit') := by
  cases inputs with
  | given items => exact visitItems_twin hvisit h
  | stream inlet m => exact visitStream_twin bound inlet bound m hvisit

end DualShell
