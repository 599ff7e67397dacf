import DualShell.Machine.Task
import DualShell.Proofs.Value.Sound

/-!
# What code may ask, and what it may count on

Code meets the machine one request at a time, and other code runs between any two of its requests. A `Discipline` is a
contract for that meeting, over states that record what has been promised so far: what has to hold before a request is
made, and what holds after an answer, however the others went on meanwhile. `Eval.Safe` says that a piece of code keeps
the contract and what it leaves behind. It is read off the tree of requests (`Task.Keeps`), so it composes along `bind`
(`Eval.Safe.bind`) and says nothing about who answers.

Most requests have to do with values alone; those that name variables, frames or other code are the business of each
discipline.
-/

namespace DualShell

/-! ## Values in requests and answers -/

/-- A change that puts only sound values in. -/
def Edit.Sound (q : Quality) : Edit → Prop
  | .replace keys value => Value.AllSound q keys ∧ value.Sound q
  | .remove keys => Value.AllSound q keys

/-- A sound change makes a sound value of a sound value. -/
theorem Edit.Sound.apply {q : Quality} {change : Edit} (h : change.Sound q) {v : Value} (hv : v.Sound q) :
    q.Yields (Value.Sound q) (change.apply v) := by
  cases change with
  | replace keys value => exact h.2.assocPath keys hv h.1
  | remove keys => exact hv.dissocPath keys h

/-- A change that is sound for a quality is sound for a weaker one. -/
theorem Edit.Sound.mono {q q' : Quality} (hq : q.Le q') {change : Edit} (h : change.Sound q) : change.Sound q' := by
  cases change with
  | replace keys value => exact ⟨fun k hk => (h.1 k hk).mono hq, h.2.mono hq⟩
  | remove keys => exact fun k hk => (h k hk).mono hq

/-- A step of a read that delivers what satisfies `P`, or fails for a cause that may be found. -/
def Step.Yields {α : Type} (q : Quality) (P : α → Prop) : Step α → Prop
  | .done a => P a
  | .failed c => q.cause c
  | _ => True

namespace Request

/-- The values that a request hands to the machine are sound. -/
def Sound (q : Quality) : Request → Prop
  | .store _ v => v.Sound q
  | .edit _ change => change.Sound q
  | .activate _ vars _ => ∀ p ∈ vars, p.2.Sound q
  | .adopt v => v.Sound q
  | .openInput _ values => Value.AllSound q values
  | .put _ v => v.Sound q
  | .finishJob _ _ r => r.Sound q
  | _ => True

/-- The values and failures that an answer brings are sound. -/
def Answered (q : Quality) : (r : Request) → r.Response → Prop
  | .peek .., x => ∀ v : Value, x = some v → v.Sound q
  | .load _, x => Value.Sound q x
  | .edit .., x => q.Plain x
  | .adopt _, x => Value.Sound q x
  | .fixed _, x => ∀ v : Value, x = some v → v.Sound q
  | .takeCollected _, x => Value.AllSound q x.2
  | .write .., x => q.Plain x
  | .put .., x => q.Plain x
  | .line _, x => Step.Yields q (fun _ => True) x
  | .toEnd _, x => Step.Yields q (fun _ => True) x
  | .upTo .., x => Step.Yields q (fun _ => True) x
  | .item .., x => Step.Yields q (fun o => ∀ v : Value, o = some v → v.Sound q) x.1
  | .program .., x => q.Plain x
  | .waitJob .., r => r.Sound q
  | .join _, x => Outcome.Sound q x
  | _, _ => True

/-- Requests that bind no variable, make no frame and start no other code. -/
def LeavesFrames : Request → Prop
  | .cell .. | .unbind .. | .taken .. | .fixed .. | .member .. | .activate .. | .startJob .. | .spawn .. => False
  | _ => True

/-- Of these, the requests that change no variable and have nothing to do with modules but their names. -/
def IsPlain : Request → Prop
  | .store .. | .edit .. | .findModule .. | .claimModule .. | .fetchModule .. | .settleModule .. => False
  | r => r.LeavesFrames

/-- Plain requests leave frames alone. -/
theorem IsPlain.leavesFrames {r : Request} (h : r.IsPlain) : r.LeavesFrames := by
  cases r <;> trivial

end Request

/-! ## Contracts -/

/-- A contract between code and the machine. -/
structure Discipline where
  /-- What has been promised so far. -/
  State : Type
  /-- How the state moves while code runs that is none of our business. -/
  Later : State → State → Prop
  quality : State → Quality
  /-- What has to hold when a request is made. -/
  Needs : State → Request → Prop
  /-- What holds once it is answered. -/
  Tells : State → (r : Request) → r.Response → State → Prop
  refl : ∀ s, Later s s
  trans : ∀ {s s' s''}, Later s s' → Later s' s'' → Later s s''
  quality_mono : ∀ {s s'}, Later s s' → (quality s).Le (quality s')
  needs_plain : ∀ {s r}, r.IsPlain → r.Sound (quality s) → Needs s r
  later_of_tells : ∀ {s r x s'}, r.IsPlain → Tells s r x s' → Later s s'
  answered_of_tells : ∀ {s r x s'}, r.IsPlain → Tells s r x s' → r.Answered (quality s') x

/-- What a piece of code may do to the state: at least what may happen while other code runs, and nothing that makes
values bad. -/
structure Course (D : Discipline) where
  Leads : D.State → D.State → Prop
  refl : ∀ s, Leads s s
  trans : ∀ {s s' s''}, Leads s s' → Leads s' s'' → Leads s s''
  of_later : ∀ {s s'}, D.Later s s' → Leads s s'
  quality_mono : ∀ {s s'}, Leads s s' → (D.quality s).Le (D.quality s')

/-- Code that does nothing but what may happen anyway. -/
def Discipline.aside (D : Discipline) : Course D :=
  ⟨D.Later, D.refl, D.trans, id, D.quality_mono⟩

/-- Every request of the task is allowed when it is made, and `Q` holds of what it yields. -/
def Task.Keeps (D : Discipline) {α : Type} (Q : α → D.State → Prop) : Task α → D.State → Prop
  | .ret a, s => Q a s
  | .request r next, s => D.Needs s r ∧ ∀ x s', D.Tells s r x s' → (next x).Keeps D Q s'
  | .exhausted, _ => True

namespace Task.Keeps

variable {D : Discipline} {α β : Type} {Q : α → D.State → Prop}

/-- Less may be concluded of a task that keeps a contract. -/
theorem mono {t : Task α} {R : α → D.State → Prop} {s : D.State} (h : t.Keeps D Q s) (hQ : ∀ a s, Q a s → R a s) :
    t.Keeps D R s := by
  induction t generalizing s with
  | ret a => exact hQ a s h
  | request r next ih => exact ⟨h.1, fun x s' hx => ih x (h.2 x s' hx)⟩
  | exhausted => trivial

/-- A task keeps a contract part after part. -/
theorem bind {t : Task α} {f : α → Task β} {R : β → D.State → Prop} {s : D.State}
    (h : t.Keeps D (fun a s' => (f a).Keeps D R s') s) : (t.bind f).Keeps D R s := by
  induction t generalizing s with
  | ret a => exact h
  | request r next ih => exact ⟨h.1, fun x s' hx => ih x (h.2 x s' hx)⟩
  | exhausted => trivial

end Task.Keeps

namespace Eval

variable {D : Discipline} {α β : Type}

/-- The code keeps the contract and stays on its course; `Q` holds if it succeeds, and if it fails then with a sound
failure. -/
def Safe (K : Course D) (Q : α → D.State → Prop) (x : Eval α) (s : D.State) : Prop :=
  Task.Keeps D (fun r s' => K.Leads s s' ∧
    match r with
    | .ok a => Q a s'
    | .error e => Exception.Sound (D.quality s') e) x.run s

/-- Nothing special is known after success. -/
abbrev anything : α → D.State → Prop := fun _ _ => True

/-- Code that is safe wherever it runs. -/
def Harmless (K : Course D) (x : Eval α) : Prop := ∀ s, x.Safe K anything s

namespace Safe

variable {K : Course D} {Q : α → D.State → Prop} {R : β → D.State → Prop} {s : D.State}

theorem pure {a : α} (h : Q a s) : (Pure.pure a : Eval α).Safe K Q s :=
  ⟨K.refl s, h⟩

theorem exhausted : (Eval.exhausted : Eval α).Safe K Q s := trivial

/-- A sound failure is raised safely. -/
theorem throw {e : Exception} (h : e.Sound (D.quality s)) : (MonadExcept.throw e : Eval α).Safe K Q s :=
  ⟨K.refl s, h⟩

/-- A plain failure is raised safely. -/
theorem fail {c : Cause} (h : (D.quality s).cause c) : (Eval.fail c : Eval α).Safe K Q s :=
  ⟨K.refl s, .cause h⟩

/-- Less may be concluded of safe evaluation. -/
theorem mono {x : Eval α} {P : α → D.State → Prop} (h : x.Safe K P s) (hQ : ∀ a s', K.Leads s s' → P a s' → Q a s') :
    x.Safe K Q s := by
  refine Task.Keeps.mono h fun r s' hr => ⟨hr.1, ?_⟩
  cases r with
  | ok a => exact hQ a s' hr.1 hr.2
  | error e => exact hr.2

theorem trivially {x : Eval α} (h : x.Safe K Q s) : x.Safe K anything s :=
  h.mono fun _ _ _ _ => trivial

/-- Code that stays on one course stays on every wider one. -/
theorem widen {x : Eval α} {K' : Course D} (h : x.Safe K Q s) (hK : ∀ s', K.Leads s s' → K'.Leads s s') : x.Safe K' Q s :=
  Task.Keeps.mono h fun _ _ hr => ⟨hK _ hr.1, hr.2⟩

/-- Evaluation is safe part after part. -/
theorem bind {x : Eval α} {f : α → Eval β} {P : α → D.State → Prop} (hx : x.Safe K P s)
    (hf : ∀ a s', K.Leads s s' → P a s' → (f a).Safe K R s') : (x >>= f).Safe K R s := by
  refine Task.Keeps.bind (Task.Keeps.mono hx fun r s' hr => ?_)
  cases r with
  | ok a => exact Task.Keeps.mono (hf a s' hr.1 hr.2) fun r s'' h => ⟨K.trans hr.1 h.1, h.2⟩
  | error e => exact hr

/-- Afterwards, success and failure are both known. -/
theorem attempt {x : Eval α} (h : x.Safe K Q s) : (Eval.attempt x).Safe K (fun r s' =>
    match r with
    | .ok a => Q a s'
    | .error e => Exception.Sound (D.quality s') e) s := by
  refine Task.Keeps.bind (Task.Keeps.mono h fun r s' hr => ?_)
  exact hr

/-- Afterwards, an outcome is at hand that is sound. -/
theorem attempt_outcome {x : Eval Unit} {Q : Unit → D.State → Prop} (h : x.Safe K Q s) :
    (Eval.attempt x).Safe K (fun o s' => Outcome.Sound (D.quality s') o) s := by
  refine h.attempt.mono fun o s' _ ho => ?_
  cases o with
  | ok => trivial
  | error ex => exact ho

/-- A task that is run for what it yields. -/
theorem lift {t : Task α} (h : t.Keeps D (fun a s' => K.Leads s s' ∧ Q a s') s) : Safe K Q (ExceptT.lift t) s :=
  Task.Keeps.bind (Task.Keeps.mono h fun _ _ ha => ha)

/-- A result is safe as a value or as the failure of its cause. -/
theorem ofExcept {x : Except Cause α} (h : (D.quality s).Yields (fun a => Q a s) x) : (Eval.ofExcept x).Safe K Q s := by
  cases x with
  | ok a => exact pure h
  | error c => exact fail h

/-- A computation on texts. -/
theorem ofPlain {x : Except Cause α} (h : (D.quality s).Plain x) : (Eval.ofExcept x).Safe K anything s :=
  ofExcept (Q := anything) h

/-- A sound outcome is returned safely. -/
theorem ofOutcome {o : Outcome} (h : Outcome.Sound (D.quality s) o) : (Eval.ofOutcome o).Safe K anything s :=
  match o, h with
  | .ok (), _ => pure trivial
  | .error _, h => throw h

/-- A request is safe if it is allowed, and what is told leads on. -/
theorem ask {r : Request} {P : r.Response → D.State → Prop} (hn : D.Needs s r)
    (ht : ∀ x s', D.Tells s r x s' → K.Leads s s' ∧ P x s') : (Eval.ask r).Safe K P s :=
  ⟨hn, fun x s' hx => ht x s' hx⟩

/-- A plain request is safe if its values are, and what its answer brings is sound. -/
theorem ask_plain {r : Request} (hp : r.IsPlain) (hs : r.Sound (D.quality s)) :
    (Eval.ask r).Safe K (fun x s' => r.Answered (D.quality s') x) s :=
  ask (D.needs_plain hp hs) fun _ _ hx => ⟨K.of_later (D.later_of_tells hp hx), D.answered_of_tells hp hx⟩

/-- Code that is run for its effect alone. -/
theorem andThen {x : Eval α} {f : α → Eval β} (hx : x.Safe K Q s) (hf : ∀ a s', K.Leads s s' → (f a).Safe K R s') :
    (x >>= f).Safe K R s :=
  hx.bind fun a s' hs _ => hf a s' hs

/-- Code that is run as a task ends with a sound outcome. -/
theorem outcome {x : Eval Unit} {Q : Unit → D.State → Prop} (h : x.Safe K Q s) :
    x.run.Keeps D (fun o s' => Outcome.Sound (D.quality s') o) s := by
  refine Task.Keeps.mono h fun o s' ho => ?_
  cases o with
  | ok => trivial
  | error e => exact ho.2

end Safe

/-- The code keeps the contract, and when it ends it is still on the course of an earlier state. -/
def SafeSince (K : Course D) (Q : α → D.State → Prop) (s₀ : D.State) (x : Eval α) (s : D.State) : Prop :=
  Task.Keeps D (fun r s' => K.Leads s₀ s' ∧
    match r with
    | .ok a => Q a s'
    | .error e => Exception.Sound (D.quality s') e) x.run s

namespace SafeSince

variable {K : Course D} {Q : α → D.State → Prop} {R : β → D.State → Prop} {s₀ s : D.State}

/-- What is safe since now is safe. -/
theorem safe {x : Eval α} (h : x.SafeSince K Q s s) : x.Safe K Q s := by
  refine Task.Keeps.mono h fun r s' hr => ⟨hr.1, ?_⟩
  cases r <;> exact hr.2

theorem pure {a : α} (hs : K.Leads s₀ s) (h : Q a s) : (Pure.pure a : Eval α).SafeSince K Q s₀ s := ⟨hs, h⟩

/-- A sound failure is raised safely since some state. -/
theorem throw {e : Exception} (hs : K.Leads s₀ s) (h : e.Sound (D.quality s)) :
    (MonadExcept.throw e : Eval α).SafeSince K Q s₀ s :=
  ⟨hs, h⟩

/-- A plain failure is raised safely since some state. -/
theorem ofPlain {x : Except Cause α} (hs : K.Leads s₀ s) (h : (D.quality s).Plain x) :
    (Eval.ofExcept x).SafeSince K anything s₀ s := by
  cases x with
  | ok a => exact ⟨hs, trivial⟩
  | error c => exact ⟨hs, .cause h⟩

/-- A request that may lead off the course, if what follows it leads back. -/
theorem ask {r : Request} {f : r.Response → Eval β} (hn : D.Needs s r)
    (hf : ∀ x s', D.Tells s r x s' → (f x).SafeSince K R s₀ s') : (Eval.ask r >>= f).SafeSince K R s₀ s :=
  ⟨hn, fun x s' hx => hf x s' hx⟩

/-- Code whose failure is looked at. -/
theorem attempt {x : Eval α} {f : Except Exception α → Eval β} (hx : x.Safe K Q s)
    (hf : ∀ o s', K.Leads s s' → (∀ a, o = .ok a → Q a s') → (∀ e, o = .error e → Exception.Sound (D.quality s') e) →
      (f o).SafeSince K R s₀ s') : (Eval.attempt x >>= f).SafeSince K R s₀ s := by
  refine Task.Keeps.bind (Task.Keeps.bind (Task.Keeps.mono hx fun r s' hr => ?_))
  refine hf r s' hr.1 (fun a ha => ?_) fun e he => ?_
  · subst ha
    exact hr.2
  · subst he
    exact hr.2

end SafeSince

namespace Harmless

variable {K : Course D}

theorem pure (a : α) : (Pure.pure a : Eval α).Harmless K := fun _ => .pure trivial

theorem exhausted : (Eval.exhausted : Eval α).Harmless K := fun _ => .exhausted

/-- Evaluation is harmless if its parts are. -/
theorem bind {x : Eval α} {f : α → Eval β} (hx : x.Harmless K) (hf : ∀ a, (f a).Harmless K) : (x >>= f).Harmless K :=
  fun s => (hx s).andThen fun a s' _ => hf a s'

/-- A plain request that carries no values. -/
theorem ask {r : Request} (hp : r.IsPlain) (hs : ∀ q, r.Sound q) : (Eval.ask r).Harmless K :=
  fun _ => (Safe.ask_plain hp (hs _)).trivially

/-- A computation on texts: it may fail, but not by a lookup. -/
theorem ofExcept {x : Except Cause α} (h : ∀ q : Quality, q.Plain x) : (Eval.ofExcept x).Harmless K :=
  fun _ => .ofPlain (h _)

/-- A failure that every law allows is harmless. -/
theorem fail {c : Cause} (h : ∀ q : Quality, q.cause c) : (Eval.fail c : Eval α).Harmless K := fun _ => .fail (h _)

end Harmless

end Eval

end DualShell
