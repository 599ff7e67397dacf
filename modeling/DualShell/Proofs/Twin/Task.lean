import Mathlib.Data.Multiset.AddSub
import DualShell.Machine.Task
import DualShell.Proofs.Twin.Renaming
import DualShell.Proofs.Machine.Lawful

/-!
# Code and its twin

Two pieces of code are twins (`Task.Twin`, `Eval.Twin`) if they make the same requests under different numbers, as long
as they get the same answers under different numbers, and then end alike. The values in their requests obey a law if
those in the answers do. So one relation says two things: that the numbers of channels, collectors and tasks do not
matter, and, of code that is its own twin, that no value breaks the law.

Twins also keep count of the tasks that they began and have yet to join. `Eval.Twin` says that in the end there are as
many as there were.
-/

namespace DualShell

/-- What is known of answers besides the values in them, and that the failures made of several others then obey the law. -/
structure Notes (L : Law) where
  noted : (r : Request) → r.Response → Prop
  /-- The failures of the forms of a pipeline become one. -/
  composed : ∀ {p : Code.Pipeline} {ids : List TaskId} {os : List Outcome},
    List.Forall₂ (fun form id => ∃ ctx wiring, noted (.spawn (.form form ctx wiring)) id) p.forms ids →
    List.Forall₂ (fun id o => noted (.join id) o) ids os → 2 ≤ (countedFailures os).length →
    (∀ e ∈ countedFailures os, L.failure e) → L.failure (.ofCauses (countedFailures os))
  /-- The failures of jobs that were waited for become one. -/
  reaped : ∀ {k : KernelId} {rs : List (JobId × RunResult)}, (∀ r ∈ rs, noted (.waitJob k r.1) r.2) →
    2 ≤ (rs.flatMap fun r => r.2.exception.toList).length → (∀ e ∈ rs.flatMap fun r => r.2.exception.toList, L.failure e) →
    L.failure (.ofCauses (rs.flatMap fun r => r.2.exception.toList))

/-- What holds between a task and its twin: the numbers, the law of the values, and what is known of answers. -/
structure Scheme extends Renaming where
  law : Law
  notes : Notes law

/-- What is known of an answer. -/
abbrev Scheme.noted (S : Scheme) : (r : Request) → r.Response → Prop := S.notes.noted

namespace Request

/-- The request under other numbers. -/
def rename (ρ : Renaming) : Request → Request
  | .takeCollected k => .takeCollected (ρ.collector k)
  | .closeOutlet o => .closeOutlet (o.rename ρ)
  | .closeInlet i => .closeInlet (i.rename ρ)
  | .write o data => .write (o.rename ρ) data
  | .put o v => .put (o.rename ρ) v
  | .line i => .line (i.rename ρ)
  | .toEnd i => .toEnd (i.rename ρ)
  | .upTo i count => .upTo (i.rename ρ) count
  | .item i m => .item (i.rename ρ) m
  | .startJob p ctx => .startJob p (ctx.rename ρ)
  | .spawn work => .spawn (work.rename ρ)
  | .join id => .join (ρ.task id)
  | r => r

/-- A request that uses nothing but what may be used, and brings only lawful values. -/
def Allowed (S : Scheme) : Request → Prop
  | .store _ v => S.law.value v
  | .edit _ change => change.Lawful S.law
  | .activate _ vars _ => ∀ p ∈ vars, S.law.value p.2
  | .adopt v => S.law.value v
  | .openInput _ values => S.law.values values
  | .takeCollected k => S.Own k
  | .closeOutlet o => o.Writable S.toRenaming
  | .closeInlet i => i.Closable S.toRenaming
  | .write o _ => o.Writable S.toRenaming
  | .put o v => o.Writable S.toRenaming ∧ S.law.value v
  | .startJob _ ctx => ctx.Usable S.toRenaming
  | .finishJob _ _ r => S.law.result r
  | .spawn work => work.Usable S.toRenaming
  | _ => True

/-- An answer and its twin: the same under other numbers, with only lawful values. -/
def Meets (S : Scheme) : (r : Request) → r.Response → (r.rename S.toRenaming).Response → Prop
  | .peek .., x, x' => x' = x ∧ ∀ v : Value, x = some v → S.law.value v
  | .fixed _, x, x' => x' = x ∧ ∀ v : Value, x = some v → S.law.value v
  | .load _, x, x' => x' = x ∧ S.law.value x
  | .adopt _, x, x' => x' = x ∧ S.law.value x
  | .openChannel _, x, x' => x' = S.channel x ∧ S.pipe x
  | .openInput .., x, x' => x' = S.channel x
  | .openCollector, x, x' => x' = S.collector x ∧ S.Own x
  | .takeCollected _, x, x' => x' = x ∧ S.law.values x.2
  | .item .., x, x' => x' = x ∧ ∀ v : Value, x.1 = .done (some v) → S.law.value v
  | .openFile .., x, x' => x' = x ∧ ∀ p : Connection, x = .ok p → p.rename S.toRenaming = p ∧ p.Usable S.toRenaming
  | .waitJob k id, r, r' => r' = r ∧ S.law.result r ∧ S.noted (.waitJob k id) r
  | .spawn work, x, x' => x' = S.task x ∧ S.noted (.spawn work) x
  | .join id, x, x' => x' = x ∧ S.law.outcome x ∧ S.noted (.join id) x
  | _, x, x' => HEq x' x

/-- The tasks that are yet to be joined after a request. -/
def owes : (r : Request) → r.Response → Multiset TaskId → Multiset TaskId
  | .spawn _, id, owed => id ::ₘ owed
  | .join id, _, owed => owed.erase id
  | _, _, owed => owed

end Request

variable {S : Scheme} {α α' β β' : Type}

/-- Two tasks that make the same requests under different numbers; `Q` holds of what they yield and of the tasks yet to
be joined. -/
inductive Task.Twin (S : Scheme) (Q : Multiset TaskId → α → α' → Prop) : Multiset TaskId → Task α → Task α' → Prop
  | ret {owed : Multiset TaskId} {a : α} {a' : α'} (h : Q owed a a') : Task.Twin S Q owed (.ret a) (.ret a')
  | request {owed : Multiset TaskId} {r : Request} {next : r.Response → Task α}
      {next' : (r.rename S.toRenaming).Response → Task α'}
      (hr : r.Allowed S) (hnext : ∀ x x', r.Meets S x x' → Task.Twin S Q (r.owes x owed) (next x) (next' x')) :
      Task.Twin S Q owed (.request r next) (.request (r.rename S.toRenaming) next')
  | exhausted {owed : Multiset TaskId} : Task.Twin S Q owed .exhausted .exhausted

namespace Task.Twin

variable {Q : Multiset TaskId → α → α' → Prop} {owed : Multiset TaskId}

/-- Less may be concluded of what the tasks come to. -/
theorem mono {R : Multiset TaskId → α → α' → Prop} {t : Task α} {t' : Task α'} (h : Task.Twin S Q owed t t')
    (hQ : ∀ owed a a', Q owed a a' → R owed a a') : Task.Twin S R owed t t' := by
  induction h with
  | ret h => exact .ret (hQ _ _ _ h)
  | request hr _ ih => exact .request hr ih
  | exhausted => exact .exhausted

/-- Tasks do the same one after another, the second ones whatever the first ones came to. -/
theorem bind {R : Multiset TaskId → β → β' → Prop} {t : Task α} {t' : Task α'} {f : α → Task β} {f' : α' → Task β'}
    (h : Task.Twin S Q owed t t') (hf : ∀ owed a a', Q owed a a' → Task.Twin S R owed (f a) (f' a')) :
    Task.Twin S R owed (t.bind f) (t'.bind f') := by
  induction h with
  | ret h => exact hf _ _ _ h
  | request hr _ ih => exact .request hr ih
  | exhausted => exact .exhausted

end Task.Twin

/-- Two tasks that are twins and leave no task behind; `P` holds of what they yield. -/
abbrev Task.Steady (S : Scheme) (P : α → α' → Prop) (t : Task α) (t' : Task α') : Prop :=
  ∀ owed, Task.Twin S (fun owed' a a' => owed' = owed ∧ P a a') owed t t'

namespace Task.Steady

variable {P : α → α' → Prop} {R : β → β' → Prop}

/-- Tasks that are over do the same. -/
theorem pure {a : α} {a' : α'} (h : P a a') : Task.Steady S P (Pure.pure a) (Pure.pure a') := fun _ => .ret ⟨rfl, h⟩

/-- Tasks that owe nothing do the same one after another. -/
theorem bind {t : Task α} {t' : Task α'} {f : α → Task β} {f' : α' → Task β'} (h : Task.Steady S P t t')
    (hf : ∀ a a', P a a' → Task.Steady S R (f a) (f' a')) : Task.Steady S R (t >>= f) (t' >>= f') := fun owed =>
  (h owed).bind fun _ _ _ ⟨ho, ha⟩ => ho ▸ hf _ _ ha _

end Task.Steady

/-- Two results that are alike: both a success, or the same lawful failure. -/
inductive Alike (S : Scheme) (P : α → α' → Prop) : Except Exception α → Except Exception α' → Prop
  | ok {a : α} {a' : α'} (h : P a a') : Alike S P (.ok a) (.ok a')
  | error {e : Exception} (h : S.law.failure e) : Alike S P (.error e) (.error e)

namespace Eval

/-- Two pieces of code that are twins and leave no task behind; `P` holds of what they yield. -/
def Twin (S : Scheme) (P : α → α' → Prop) (x : Eval α) (x' : Eval α') : Prop := Task.Steady S (Alike S P) x.run x'.run

/-- Both yield the same, and `P` holds of it. -/
abbrev Same (P : α → Prop) : α → α → Prop := fun a a' => a' = a ∧ P a

/-- Both yield the same. -/
abbrev anyway : α → α → Prop := fun a a' => a' = a

namespace Twin

variable {P : α → α' → Prop} {R : β → β' → Prop}

theorem pure {a : α} {a' : α'} (h : P a a') : Twin S P (Pure.pure a) (Pure.pure a') := fun _ => .ret ⟨rfl, .ok h⟩

theorem exhausted : Twin S P (Eval.exhausted : Eval α) (Eval.exhausted : Eval α') := fun _ => .exhausted

/-- A failure that the law allows is raised on both sides. -/
theorem throw {e : Exception} (h : S.law.failure e) :
    Twin S P (MonadExcept.throw e : Eval α) (MonadExcept.throw e : Eval α') :=
  fun _ => .ret ⟨rfl, .error h⟩

theorem fail (c : Cause) : Twin S P (Eval.fail c : Eval α) (Eval.fail c : Eval α') := throw (S.law.ofCause c)

/-- Less may be concluded of what evaluation comes to. -/
theorem mono {P' : α → α' → Prop} {x : Eval α} {x' : Eval α'} (h : Twin S P x x') (hP : ∀ a a', P a a' → P' a a') :
    Twin S P' x x' :=
  fun owed => (h owed).mono fun _ _ _ ⟨ho, hr⟩ => ⟨ho, by
    cases hr with
    | ok h => exact .ok (hP _ _ h)
    | error h => exact .error h⟩

/-- Evaluation does the same part after part. -/
theorem bind {x : Eval α} {x' : Eval α'} {f : α → Eval β} {f' : α' → Eval β'} (hx : Twin S P x x')
    (hf : ∀ a a', P a a' → Twin S R (f a) (f' a')) : Twin S R (x >>= f) (x' >>= f') := fun owed =>
  (hx owed).bind fun _ _ _ ⟨ho, hr⟩ => by
    subst ho
    cases hr with
    | ok h => exact hf _ _ h _
    | error h => exact .ret ⟨rfl, .error h⟩

/-- Code of which nothing matters but that both yield the same. -/
theorem andThen {x x' : Eval α} {f : α → Eval β} {f' : α → Eval β'} (hx : Twin S anyway x x')
    (hf : ∀ a, Twin S R (f a) (f' a)) : Twin S R (x >>= f) (x' >>= f') :=
  hx.bind fun a _ ha => by cases ha; exact hf _

/-- A computation that both make. -/
theorem ofExcept {Q : α → Prop} {x : Except Cause α} (h : GivesOnly Q x) :
    Twin S (Same Q) (Eval.ofExcept x) (Eval.ofExcept x) := by
  cases x with
  | ok a => exact pure ⟨rfl, h a rfl⟩
  | error c => exact fail c

/-- A computation on texts that both make. -/
theorem plainly (x : Except Cause α) : Twin S anyway (Eval.ofExcept x) (Eval.ofExcept x) := by
  cases x with
  | ok a => exact pure rfl
  | error c => exact fail c

theorem ofOutcome {o : Outcome} (h : S.law.outcome o) : Twin S anyway (Eval.ofOutcome o) (Eval.ofOutcome o) := by
  cases o with
  | ok => exact pure rfl
  | error e => exact throw (h e rfl)

/-- Success and failure are both looked at. -/
theorem attempt {x : Eval α} {x' : Eval α'} (h : Twin S P x x') :
    Twin S (Alike S P) (Eval.attempt x) (Eval.attempt x') := fun owed =>
  (h owed).bind fun _ _ _ ⟨ho, hr⟩ => .ret ⟨ho, .ok hr⟩

/-- What evaluation comes to is the same for whoever tries it. -/
theorem attempt_outcome {x x' : Eval Unit} (h : Twin S anyway x x') :
    Twin S (Same S.law.outcome) (Eval.attempt x) (Eval.attempt x') :=
  h.attempt.mono fun r r' hr => by
    cases hr with
    | ok => exact ⟨rfl, Law.outcome_ok⟩
    | error h => exact ⟨rfl, Law.outcome_error.2 h⟩

/-- A request that begins and joins no task. -/
theorem ask {r : Request} (hr : r.Allowed S) (howes : ∀ x owed, r.owes x owed = owed) :
    Twin S (r.Meets S) (Eval.ask r) (Eval.ask (r.rename S.toRenaming)) := fun owed =>
  .request hr fun x _ hx => .ret ⟨howes x owed, .ok hx⟩

/-- Tasks that are run for what they yield. -/
theorem lift {t : Task α} {t' : Task α'} (h : Task.Steady S P t t') : Twin S P (ExceptT.lift t) (ExceptT.lift t') :=
  fun owed =>
  (h owed).bind fun _ _ _ ha => .ret ⟨ha.1, .ok ha.2⟩

end Twin

end Eval

namespace Task.Twin

variable {Q : Multiset TaskId → Except Exception α → Except Exception α' → Prop} {owed : Multiset TaskId}

/-- A request before more code. -/
theorem asks {r : Request} {f : r.Response → Eval α} {f' : (r.rename S.toRenaming).Response → Eval α'} (hr : r.Allowed S)
    (hf : ∀ x x', r.Meets S x x' → Task.Twin S Q (r.owes x owed) (f x).run (f' x').run) :
    Task.Twin S Q owed (Eval.ask r >>= f).run (Eval.ask (r.rename S.toRenaming) >>= f').run := .request hr hf

/-- Code that may fail, and is looked at, before more code. -/
theorem attempts {x x' : Eval Unit} {f : Outcome → Eval α} {f' : Outcome → Eval α'} (hx : Eval.Twin S Eval.anyway x x')
    (hf : ∀ o, S.law.outcome o → Task.Twin S Q owed (f o).run (f' o).run) :
    Task.Twin S Q owed (Eval.attempt x >>= f).run (Eval.attempt x' >>= f').run := by
  rw [Eval.run_attempt_bind, Eval.run_attempt_bind]
  refine Task.Twin.bind (hx owed) fun owed' o o' ⟨howed, ho⟩ => ?_
  subst howed
  cases ho with
  | ok h =>
    cases h
    exact hf _ Law.outcome_ok
  | error h => exact hf _ (Law.outcome_error.2 h)

end Task.Twin

end DualShell
