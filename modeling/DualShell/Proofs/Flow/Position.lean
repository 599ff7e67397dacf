import DualShell.Proofs.Flow.Boundary
import DualShell.Proofs.Machine.Outcomes

/-!
# Outcomes of pipelines

The outcome of a pipeline is read off the outcomes of its forms by their positions (`failures`): that the reader of a
form before the last was gone does not count, one failure that counts is that of the pipeline as it is, and several
become the parts of one. Whatever runs a pipeline starts all its forms, asks for their outcomes in the order of the
forms and composes them (`Evaluator.ComposesByPosition`), and what it is told of each form is how that form ended,
whenever that was (`Outcomes`).
-/

namespace DualShell

open Eval

/-! ## Failures by position -/

/-- The failure at a position, if it counts: that the reader was gone counts at the last position only. -/
def failureAt? (outcomes : List Outcome) (i : Nat) : Option Exception :=
  match outcomes[i]? with
  | some (.error ex) => if ex.isReaderGone && decide (i + 1 < outcomes.length) then none else some ex
  | _ => none

/-- The failures that count, in the order of their positions. -/
def failures (outcomes : List Outcome) : List Exception := (List.range outcomes.length).filterMap (failureAt? outcomes)

theorem Exception.isReaderGone_iff {ex : Exception} : ex.isReaderGone = true ↔ ex.kind = .cause .readerGone := by
  unfold isReaderGone
  split <;> simp_all

/-- Positions count from the first outcome on. -/
theorem failureAt?_cons (o : Outcome) (rest : List Outcome) (i : Nat) :
    failureAt? (o :: rest) (i + 1) = failureAt? rest i := by
  simp [failureAt?]

/-- The rest of a pipeline does not depend on what came before it. -/
theorem failures_cons (o : Outcome) (rest : List Outcome) :
    failures (o :: rest) = (failureAt? (o :: rest) 0).toList ++ failures rest := by
  have hrest : failureAt? (o :: rest) ∘ Nat.succ = failureAt? rest := funext (failureAt?_cons o rest)
  rw [failures, List.length_cons, List.range_succ_eq_map, List.filterMap_cons, List.filterMap_map, hrest]
  cases failureAt? (o :: rest) 0 <;> rfl

/-- What the model of composition keeps are the failures that count by position. -/
theorem countedFailures_eq (outcomes : List Outcome) : countedFailures outcomes = failures outcomes := by
  induction outcomes with
  | nil => rfl
  | cons o rest ih =>
    rw [failures_cons, ← ih]
    cases o with
    | ok => rfl
    | error ex =>
      have hlast : decide (0 + 1 < (Except.error ex :: rest : List Outcome).length) = !rest.isEmpty := by cases rest <;> simp
      simp only [countedFailures, failureAt?, List.getElem?_cons_zero, hlast, Bool.and_comm]
      split <;> rfl

/-- A failure counts wherever it is, unless it says of a form before the last that its reader was gone. -/
theorem mem_failures {outcomes : List Outcome} {ex : Exception} :
    ex ∈ failures outcomes ↔ ∃ i, outcomes[i]? = some (.error ex) ∧
    (ex.kind = .cause .readerGone → i + 1 = outcomes.length) := by
  have hcounts : ∀ i, failureAt? outcomes i = some ex ↔
      outcomes[i]? = some (.error ex) ∧ (ex.kind = .cause .readerGone → i + 1 = outcomes.length) := by
    intro i
    unfold failureAt?
    split
    · rename_i ex' hi
      have hlt : i < outcomes.length := (List.getElem?_eq_some_iff.1 hi).1
      by_cases heq : ex' = ex
      · subst heq
        rw [hi, ← Exception.isReaderGone_iff]
        cases ex'.isReaderGone
        · simp
        · simp only [Bool.true_and, decide_eq_true_eq, true_and, forall_const]
          split <;> simp <;> omega
      · have hne : (Except.error ex' : Outcome) ≠ .error ex := fun h => heq (Except.error.inj h)
        rw [hi]
        split <;> simp [heq, hne]
    · rename_i hnone
      exact ⟨fun h => absurd h.symm (Option.some_ne_none ex), fun h => absurd h.1 (hnone ex)⟩
  simp only [failures, List.mem_filterMap, List.mem_range, hcounts]
  constructor
  · rintro ⟨i, -, h⟩
    exact ⟨i, h⟩
  · rintro ⟨i, h⟩
    exact ⟨i, (List.getElem?_eq_some_iff.1 h.1).1, h⟩

/-! ## Runs of pipelines -/

/-- The forms of a pipeline are started in order, each joined to the next one by a new channel. -/
inductive Starts (ctx : Context) : Option Inlet → List Code.Form → List Exchange → List TaskId → Prop
  | last {input form} (id : TaskId) : Starts ctx input [form] [⟨.spawn (.form form ctx ⟨input, none⟩), id⟩] [id]
  | more {input form next rest es ids} (c : ChannelId) (id : TaskId)
      (h : Starts ctx (some (.channel c)) (next :: rest) es ids) : Starts ctx input (form :: next :: rest)
        (⟨.openChannel ctx.kernel, c⟩ :: ⟨.spawn (.form form ctx ⟨input, some (.channel c)⟩), id⟩ :: es) (id :: ids)

/-- The outcomes of tasks are asked for one after another. -/
def joins (ids : List TaskId) (outcomes : List Outcome) : List Exchange :=
  List.zipWith (fun id o => ⟨.join id, o⟩) ids outcomes

variable {ctx : Context} {es : List Exchange}

/-- Each form has its task. -/
theorem Starts.length {input : Option Inlet} {forms : List Code.Form} {ids : List TaskId}
    (h : Starts ctx input forms es ids) : ids.length = forms.length := by
  induction h with
  | last => rfl
  | more c id _ ih => simpa using ih

/-- Forms are started one after another, each reading what the one before it writes. -/
theorem ends_startForms : {forms : List Code.Form} → (hforms : forms ≠ []) → ∀ {input : Option Inlet} {es : List Exchange}
    {r : Except Exception (List TaskId)}, (startForms ctx input forms).Ends es r ↔ ∃ ids, r = .ok ids ∧
    Starts ctx input forms es ids
  | [form], _, input, es, r => by
    refine ends_ask_bind.trans ⟨?_, ?_⟩
    · rintro ⟨id, rest, rfl, h⟩
      obtain ⟨rfl, rfl⟩ := ends_pure.1 h
      exact ⟨[id], rfl, .last id⟩
    · rintro ⟨ids, rfl, h⟩
      cases h with
      | last id => exact ⟨id, [], rfl, ends_pure.2 ⟨rfl, rfl⟩⟩
  | form :: next :: rest, _, input, es, r => by
    have hrest := @ends_startForms (next :: rest) (List.cons_ne_nil next rest)
    refine ends_ask_bind.trans ⟨?_, ?_⟩
    · rintro ⟨c, es₁, rfl, h⟩
      obtain ⟨id, es₂, rfl, hmore⟩ := ends_ask_bind.1 h
      rcases ends_bind.1 hmore with ⟨ex, hfail, rfl⟩ | ⟨es₃, es₄, ids, rfl, hids, hlast⟩
      · obtain ⟨ids, heq, -⟩ := hrest.1 hfail
        nomatch heq
      · obtain ⟨ids', heq, hstarts⟩ := hrest.1 hids
        cases heq
        obtain ⟨rfl, rfl⟩ := ends_pure.1 hlast
        rw [List.append_nil]
        exact ⟨_, rfl, .more c id hstarts⟩
    · rintro ⟨ids, rfl, h⟩
      cases h with
      | more c id hstarts =>
        refine ⟨c, _, rfl, ends_ask_bind.2 ⟨id, _, rfl, ?_⟩⟩
        exact (hrest.2 ⟨_, rfl, hstarts⟩).bind_last (ends_pure.2 ⟨rfl, rfl⟩)

/-- Tasks are joined one after another, and each is told of with its outcome. -/
theorem ends_joinAll : {ids : List TaskId} → ∀ {es : List Exchange} {r : Except Exception (List Outcome)},
    (joinAll ids).Ends es r ↔ ∃ outcomes, r = .ok outcomes ∧ outcomes.length = ids.length ∧ es = joins ids outcomes
  | [], es, r => by
    refine ends_pure.trans ⟨?_, ?_⟩
    · rintro ⟨rfl, rfl⟩
      exact ⟨[], rfl, rfl, rfl⟩
    · rintro ⟨outcomes, rfl, hlen, rfl⟩
      exact ⟨by simp [joins], congrArg _ (List.eq_nil_of_length_eq_zero hlen)⟩
  | id :: ids, es, r => by
    refine ends_ask_bind.trans ⟨?_, ?_⟩
    · rintro ⟨o, rest, rfl, h⟩
      rcases ends_bind.1 h with ⟨ex, hfail, rfl⟩ | ⟨es₁, es₂, os, rfl, hos, hlast⟩
      · obtain ⟨os, heq, -⟩ := ends_joinAll.1 hfail
        nomatch heq
      · obtain ⟨os', heq, hlen, rfl⟩ := ends_joinAll.1 hos
        cases heq
        obtain ⟨rfl, rfl⟩ := ends_pure.1 hlast
        exact ⟨o :: os, rfl, congrArg Nat.succ hlen, by simp [joins]⟩
    · rintro ⟨outcomes, rfl, hlen, rfl⟩
      cases outcomes with
      | nil => nomatch hlen
      | cons o os =>
        refine ⟨o, joins ids os, rfl, ?_⟩
        exact (ends_joinAll.2 ⟨os, rfl, Nat.succ.inj hlen, rfl⟩).bind_last (ends_pure.2 ⟨rfl, rfl⟩)

/-- However many forms there are, they can be started. -/
theorem Starts.exists (ctx : Context) : (forms : List Code.Form) → forms ≠ [] → ∀ input : Option Inlet,
    ∃ es ids, Starts ctx input forms es ids
  | [], hforms, _ => absurd rfl hforms
  | [_], _, _ => ⟨_, _, .last 0⟩
  | _ :: next :: rest, _, _ =>
    let ⟨_, _, h⟩ := Starts.exists ctx (next :: rest) (List.cons_ne_nil next rest) (some (.channel 0))
    ⟨_, _, .more 0 0 h⟩

/-! ## The rule -/

/-- The outcome of a pipeline is composed of those of its forms by position. -/
structure Evaluator.ComposesByPosition (e : Evaluator) : Prop where
  /-- A pipeline of several forms starts them all, is told all their outcomes, and ends in what these compose to. -/
  runs : ∀ {p ctx es r}, 2 ≤ p.forms.length → ((e.evalForeground p ctx).Ends es r ↔ ∃ es₁ ids outcomes,
    Starts ctx none p.forms es₁ ids ∧ outcomes.length = p.forms.length ∧ es = es₁ ++ joins ids outcomes ∧
      r = composeOutcomes outcomes p.place)
  /-- The forms may have any outcomes. -/
  any : ∀ {p ctx outcomes}, 2 ≤ p.forms.length → outcomes.length = p.forms.length →
    ∃ es ids, (e.evalForeground p ctx).Ends (es ++ joins ids outcomes) (composeOutcomes outcomes p.place)
  /-- Without failures that count, the pipeline succeeds, and only then. -/
  succeeds : ∀ {outcomes place}, composeOutcomes outcomes place = .ok () ↔ failures outcomes = []
  /-- A single failure that counts is that of the pipeline, as it is. -/
  single : ∀ {outcomes place ex}, failures outcomes = [ex] → composeOutcomes outcomes place = .error ex
  /-- Several failures are the parts of one, all of them in order and as they are, whose trace is the place of the
  pipeline. -/
  several : ∀ {outcomes place}, 2 ≤ (failures outcomes).length →
    composeOutcomes outcomes place = .error ⟨.composite (failures outcomes), [place]⟩
  /-- A failure counts wherever it is, unless it says of a form before the last that its reader was gone. -/
  counts : ∀ {outcomes ex}, ex ∈ failures outcomes ↔
    ∃ i, outcomes[i]? = some (.error ex) ∧ (ex.kind = .cause .readerGone → i + 1 = outcomes.length)
  /-- A pipeline of one form ends as that form does. -/
  alone : ∀ {p form ctx es r}, p.forms = [form] → ((e.evalForeground p ctx).Ends es r ↔ (e.form form ctx .loose).Ends es r)

/-- Failures of pipelines are composed by position, whatever the evaluator. -/
theorem Evaluator.composesByPosition (e : Evaluator) : e.ComposesByPosition := by
  have hruns : ∀ {p ctx es r}, 2 ≤ p.forms.length → ((e.evalForeground p ctx).Ends es r ↔ ∃ es₁ ids outcomes,
      Starts ctx none p.forms es₁ ids ∧ outcomes.length = p.forms.length ∧ es = es₁ ++ joins ids outcomes ∧
        r = composeOutcomes outcomes p.place) := by
    intro p ctx es r hforms
    have hne : p.forms ≠ [] := by
      rintro heq
      simp [heq] at hforms
    constructor
    · intro h
      have heq : e.evalForeground p ctx =
          (do ofOutcome (composeOutcomes (← joinAll (← startForms ctx none p.forms)) p.place)) := by
        unfold evalForeground
        split
        · rename_i hnil
          exact absurd hnil hne
        · rename_i form hone
          simp [hone] at hforms
        · rfl
      rw [heq] at h
      rcases ends_bind.1 h with ⟨ex, hfail, -⟩ | ⟨es₁, es₂, ids, rfl, hstart, hrest⟩
      · obtain ⟨ids, hids, -⟩ := (ends_startForms hne).1 hfail
        cases hids
      obtain ⟨ids', hids, hstarts⟩ := (ends_startForms hne).1 hstart
      cases hids
      rcases ends_bind.1 hrest with ⟨ex, hfail, -⟩ | ⟨es₃, es₄, outcomes, rfl, hjoin, hlast⟩
      · obtain ⟨os, hos, -⟩ := ends_joinAll.1 hfail
        cases hos
      obtain ⟨os, hos, hlen, rfl⟩ := ends_joinAll.1 hjoin
      cases hos
      obtain ⟨rfl, rfl⟩ := ends_ofOutcome.1 hlast
      exact ⟨es₁, ids, outcomes, hstarts, hlen.trans hstarts.length, by rw [List.append_nil], rfl⟩
    · rintro ⟨es₁, ids, outcomes, hstarts, hlen, rfl, rfl⟩
      exact ends_evalForeground hforms ((ends_startForms hne).2 ⟨ids, rfl, hstarts⟩)
        (ends_joinAll.2 ⟨outcomes, rfl, hlen.trans hstarts.length.symm, rfl⟩)
  refine ⟨hruns, fun {p ctx outcomes} hforms hlen => ?_, fun {outcomes place} => ?_, fun {outcomes place ex} hone => ?_,
    fun {outcomes place} hseveral => ?_, mem_failures, e.flowBoundaries.single_form⟩
  · have hne : p.forms ≠ [] := by
      rintro heq
      simp [heq] at hforms
    obtain ⟨es, ids, hstarts⟩ := Starts.exists ctx p.forms hne none
    exact ⟨es, ids, (hruns hforms).2 ⟨es, ids, outcomes, hstarts, hlen, rfl, rfl⟩⟩
  · rw [composeOutcomes, countedFailures_eq]
    rcases failures outcomes with _ | ⟨ex, _ | ⟨ex', es⟩⟩ <;> simp
  · rw [composeOutcomes, countedFailures_eq, hone]
  · rw [composeOutcomes, countedFailures_eq]
    rcases h : failures outcomes with _ | ⟨ex, _ | ⟨ex', es⟩⟩
    · simp [h] at hseveral
    · simp [h] at hseveral
    · rfl

/-- In every history, and whatever evaluates the parts of a program, pipelines end in what the outcomes of their forms
compose to by position; each form is told to have ended as it did, at whatever time that was. -/
theorem History.pipelines_compose {ds : List Deed} {p : Pool} (h : History Made ds p) :
    (∀ e : Evaluator, e.ComposesByPosition) ∧ Outcomes ds :=
  ⟨fun e => e.composesByPosition, h.outcomes⟩

/-- The program `fail left | fail right`. -/
def failingTwice : Source.Chunk :=
  ⟨[⟨["left", "right"].map fun word => ⟨[], Sample.command (.bare "fail") [.bare word], [], ⟨0, 0⟩⟩, false, ⟨0, 0⟩⟩]⟩

/-- What the parts of a program's failure were given to `fail`. -/
def Execution.reasons : Execution → List (Option String)
  | .ran ⟨_, _, _, some ex⟩ => ex.causes.map fun part => part.reason.string?
  | _ => []

set_option maxRecDepth 2000 in
/-- Both forms of a pipeline fail, and both failures are told. -/
theorem History.pipelines_compose_failing : ∃ ds,
    History Made ds ⟨[], (Sample.machine.executeWithin Sample.limits 0 failingTwice "" [] []).2⟩ ∧
    ((∀ e : Evaluator, e.ComposesByPosition) ∧ Outcomes ds) ∧
    (Sample.machine.executeWithin Sample.limits 0 failingTwice "" [] []).1.reasons = [some "left", some "right"] := by
  obtain ⟨ds, -, h⟩ := (Sample.start Made).executeWithin Sample.limits 0 failingTwice "" [] (List.forall_mem_nil _)
  exact ⟨[] ++ ds, h, h.pipelines_compose, by cbv⟩

end DualShell
