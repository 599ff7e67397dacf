import DualShell.Proofs.Flow.Position
import DualShell.Proofs.Twin.Lawful
import DualShell.Proofs.Value.Formed

/-!
# Failures are well formed

Whatever programs run, every failure that they raise, store, report or leave is well formed (`History.failures_formed`).
A failure made of others is made where a pipeline has joined its forms, or where jobs were waited for, of two or more
failures (`Composed`).
-/

namespace DualShell

/-- The task was given the answer to the request. -/
def Told (ds : List Deed) (who : TaskId) (r : Request) (x : r.Response) : Prop := ∃ w w', .answered who w r x w' ∈ ds

/-- Where failures come from that are made into one: from outside, from the forms of a pipeline that a task began and
joined, or from jobs that it waited for. -/
inductive Composed (Own : List Exception → Prop) (ds : List Deed) : List Exception → Prop
  | own {es : List Exception} (h : Own es) : Composed Own ds es
  | pipeline {who : TaskId} {p : Code.Pipeline} {ids : List TaskId} {os : List Outcome}
      (hbegan : List.Forall₂ (fun form id => ∃ ctx wiring, Told ds who (.spawn (.form form ctx wiring)) id) p.forms ids)
      (hjoined : List.Forall₂ (fun id o => Told ds who (.join id) o) ids os) : Composed Own ds (countedFailures os)
  | wait {who : TaskId} {k : KernelId} {rs : List (JobId × RunResult)}
      (hwaited : ∀ r ∈ rs, Told ds who (.waitJob k r.1) r.2) :
      Composed Own ds (rs.flatMap fun r => r.2.exception.toList)

variable {Own : List Exception → Prop} {ds : List Deed}

/-- Failures that were composed in some deeds were composed in more. -/
theorem Composed.mono {ds' : List Deed} (hds : ds ⊆ ds') {es : List Exception} (h : Composed Own ds es) :
    Composed Own ds' es := by
  have htold {who : TaskId} {r : Request} {x : r.Response} : Told ds who r x → Told ds' who r x :=
    fun ⟨w, w', hd⟩ => ⟨w, w', hds hd⟩
  cases h with
  | own h => exact .own h
  | pipeline hbegan hjoined =>
    exact .pipeline (hbegan.imp fun _ _ ⟨ctx, wiring, h⟩ => ⟨ctx, wiring, htold h⟩) (hjoined.imp fun _ _ h => htold h)
  | wait hwaited => exact .wait fun r hr => htold (hwaited r hr)

/-- Where the failures come from that a task makes into one. -/
def Composed.notes (Own : List Exception → Prop) (ds : List Deed) (who : TaskId) : Notes (Law.formed (Composed Own ds)) where
  noted := Told ds who
  composed hbegan hjoined hseveral h := .composite hseveral (.pipeline hbegan hjoined) h .nil
  reaped hwaited hseveral h := .composite hseveral (.wait hwaited) h .nil

/-! ## Evaluation -/

/-- Every failure that the code raises satisfies `P`, if the answers that it gets are among those told. -/
def Eval.RaisesOnly {α : Type} (told : (r : Request) → r.Response → Prop) (P : Exception → Prop) (x : Eval α) : Prop :=
  ∀ es ex, (∀ exchange ∈ es, told exchange.request exchange.answer) → x.Ends es (.error ex) → P ex

/-- All parts of programs raise only lawful failures. -/
structure Evaluator.RaisesOnly (told : (r : Request) → r.Response → Prop) (L : Law) (e : Evaluator) : Prop where
  block : ∀ b ctx, (e.block b ctx).RaisesOnly told L.failure
  form : ∀ form ctx wiring, (e.form form ctx wiring).RaisesOnly told L.failure
  operand : ∀ op ctx, (e.operand op ctx).RaisesOnly told L.failure
  call : ∀ v args opts ctx, L.value v → L.values args → (∀ o ∈ opts, L.value o.2) →
    (e.call v args opts ctx).RaisesOnly told L.failure

/-- How a task ends is lawful if the answers are. -/
theorem Task.Obeys.of_ends {L : Law} {n : Notes L} {α : Type} {P : α → Prop} {t : Task α} {es : List Exchange} {a : α}
    (h : t.Obeys n P) (hends : t.Ends es a)
    (hes : ∀ exchange ∈ es, exchange.request.Brings L exchange.answer ∧ n.noted exchange.request exchange.answer) : P a := by
  induction hends with
  | ret a => exact h
  | request x _ ih =>
    obtain ⟨hx, hes⟩ := List.forall_mem_cons.1 hes
    exact ih (h.2 x hx.1 hx.2) hes

/-- Evaluation that is its own twin raises what it was told of, and failures of its own. -/
theorem Evaluator.Twins.raisesOnly {L : Law} {n : Notes L} {e : Evaluator} (he : e.Twins n.scheme)
    (hbrings : ∀ r x, n.noted r x → r.Brings L x) : e.RaisesOnly n.noted L := by
  have hraises {α : Type} {P : α → α → Prop} {x x' : Eval α} (h : Eval.Twin n.scheme P x x') :
    x.RaisesOnly n.noted L.failure :=
    fun es ex hes hends => h.obeys.of_ends hends (fun exchange hx => ⟨hbrings _ _ (hes exchange hx), hes exchange hx⟩) ex rfl
  exact ⟨fun b ctx => hraises (he.block b (Renaming.usable_plain ctx)),
    fun form ctx wiring =>
      have hwiring : wiring.Usable n.scheme.toRenaming :=
        ⟨fun i _ => Renaming.closable_plain i, fun o _ => Renaming.writable_plain o⟩
      hraises (he.form form (Renaming.usable_plain ctx) hwiring),
    fun op ctx => hraises (he.operand op (Renaming.usable_plain ctx)),
    fun v args opts ctx hv hargs hopts => hraises (he.call (Renaming.usable_plain ctx) hv hargs hopts)⟩

/-! ## Histories -/

/-- The values that come from outside are well formed. -/
abbrev FormedOnly (Own : List Exception → Prop) (ds : List Deed) (v : Value) : Prop := v.Formed (Composed Own ds)

/-- All failures are well formed, and those made of others are made of those of a pipeline or of jobs that were waited
for. -/
structure FailuresFormed (Own : List Exception → Prop) (ds : List Deed) (p : Pool) : Prop where
  /-- Those that are stored, put and bound, those that tasks end with, pass on and are told, and those that jobs leave. -/
  everywhere : Lawful (Law.formed (Composed Own ds)) ds p.world
  /-- Those that any part of a program raises, however deep, if it runs as part of a task. -/
  raised : ∀ who bound depth, (Evaluator.atDepth bound depth).RaisesOnly (Told ds who) (Law.formed (Composed Own ds))
  /-- Those among the values that the next program puts, and the one that ends it. -/
  returned : ∀ w, p = ⟨[], w⟩ → ∀ l k chunk src input values, (∀ v ∈ values, FormedOnly Own ds v) → ∃ ds',
    History (FormedOnly Own) (ds ++ ds') ⟨[], (w.executeWithin l k chunk src input values).2⟩ ∧
    ∀ r, (w.executeWithin l k chunk src input values).1 = .ran r → (Law.formed (Composed Own (ds ++ ds'))).result r

namespace History

/-- What is well formed in the light of some deeds is so in the light of more. -/
theorem formedOnly_mono {ds' : List Deed} (hds : ds' ⊆ ds) {v : Value} (h : FormedOnly Own ds' v) : FormedOnly Own ds v :=
  h.mono fun _ => Composed.mono hds

/-- In every history all that is held on the machine is well formed. -/
theorem formed {p : Pool} (h : History (FormedOnly Own) ds p) : p.Lawful (Composed.notes Own ds) ds :=
  h.lawful (Composed.notes Own ds) (fun _ _ hds hv => formedOnly_mono hds hv) fun _ w _ _ w' hd => ⟨w, w', hd⟩

/-- In every history, if the values that come from outside are well formed, then so are all failures. -/
theorem failures_formed {p : Pool} (h : History (FormedOnly Own) ds p) : FailuresFormed Own ds p where
  everywhere := h.formed.toLawful
  raised who bound depth :=
    Evaluator.Twins.raisesOnly (n := Composed.notes Own ds who) (Evaluator.atDepth_twins bound depth)
      fun _ _ ⟨_, _, hd⟩ => (h.formed.asked hd).2
  returned w hp l k chunk src input values hvalues := by
    subst hp
    obtain ⟨ds', hafter, hleft⟩ := h.execute_left l k chunk src input
      fun v hv ds' => formedOnly_mono (List.subset_append_left _ ds') (hvalues v hv)
    refine ⟨ds', hafter, fun r hr => ?_⟩
    obtain ⟨w', h', hr'⟩ := hleft r hr
    exact h'.formed.held.result hr'

end History

/-- How many parts the failure has that ended a program. -/
def Execution.parts : Execution → Option Nat
  | .ran ⟨_, _, _, some ex⟩ => some ex.causes.length
  | _ => none

set_option maxRecDepth 2000 in
/-- Both forms of a pipeline fail, and the program ends with one failure of two parts. -/
theorem History.failures_formed_pipeline : ∃ ds,
    History (FormedOnly fun _ => False) ds ⟨[], (Sample.machine.executeWithin Sample.limits 0 failingTwice "" [] []).2⟩ ∧
    FailuresFormed (fun _ => False) ds ⟨[], (Sample.machine.executeWithin Sample.limits 0 failingTwice "" [] []).2⟩ ∧
    (Sample.machine.executeWithin Sample.limits 0 failingTwice "" [] []).1.parts = some 2 := by
  obtain ⟨ds, -, h⟩ :=
    (Sample.start (FormedOnly fun _ => False)).executeWithin Sample.limits 0 failingTwice "" [] (List.forall_mem_nil _)
  exact ⟨[] ++ ds, h, h.failures_formed, by cbv⟩

end DualShell
