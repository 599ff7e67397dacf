import DualShell.Proofs.Machine.Alone
import DualShell.Proofs.Machine.History

/-!
# Going through a piece of work

A task goes through a piece of its work while other tasks take turns with it: its requests are answered one after the
other, and the others move only while one of them has to wait (`Task.Through`). What it goes through is part of what
happens to the machine (`Task.Through.goes`), it goes through a composition part by part (`Task.through_bind`), and
where nothing has to wait it goes through alone (`Task.Through.alone`).
-/

namespace DualShell

/-- All that there is beside one of the tasks. -/
structure Site where
  before : List (TaskId × Task Outcome)
  after : List (TaskId × Task Outcome)
  world : World

namespace Site

/-- The pool in which the task stands at some work. -/
def pool (s : Site) (who : TaskId) (t : Task Outcome) : Pool := ⟨s.before ++ (who, t) :: s.after, s.world⟩

/-- The same tasks on another machine. -/
def on (s : Site) (w : World) : Site := { s with world := w }

end Site

namespace Task

variable {α β : Type} {who : TaskId}

/-- A task goes through a piece of work, after which it goes on with `k`. -/
inductive Through (who : TaskId) (k : α → Task Outcome) : Task α → Site → α → Site → Prop
  | ret (a : α) (s : Site) : Through who k (.ret a) s a s
  | answer {r : Request} {next : r.Response → Task α} {s s' : Site} {x : r.Response} {w' : World} {a : α}
      (hx : s.world.perform who r = (some x, w')) (h : Through who k (next x) (s.on w') a s') :
      Through who k (.request r next) s a s'
  /-- While a request has to wait, others go on. -/
  | wait {r : Request} {next : r.Response → Task α} {s s₁ s' : Site} {w' : World} {ds : List Deed} {a : α}
      (hx : s.world.perform who r = (none, w'))
      (hothers : ((s.on w').pool who ((Task.request r next).bind k)).Goes ds (s₁.pool who ((Task.request r next).bind k)))
      (h : Through who k (.request r next) s₁ a s') : Through who k (.request r next) s a s'

/-- A piece of work is gone through on the way to whatever follows. -/
def Passes (who : TaskId) (t : Task α) (s : Site) (a : α) (s' : Site) : Prop := ∃ k, t.Through who k s a s'

variable {k : α → Task Outcome} {t : Task α} {s s' : Site} {a : α}

/-- A task that is gone through passes from one site to the other. -/
theorem Through.passes (h : t.Through who k s a s') : t.Passes who s a s' := ⟨k, h⟩

/-- What a task goes through happens to the machine. -/
theorem Through.goes (h : t.Through who k s a s') : ∃ ds, (s.pool who (t.bind k)).Goes ds (s'.pool who (k a)) := by
  induction h with
  | ret a s => exact ⟨[], .refl _⟩
  | answer hx _ ih =>
    obtain ⟨ds, hgoes⟩ := ih
    exact ⟨_, .step (.answer hx) hgoes⟩
  | wait hx hothers _ ih =>
    obtain ⟨ds, hgoes⟩ := ih
    exact ⟨_, .quiet (.wait hx) (hothers.trans hgoes)⟩

/-- A task that is over is gone through at once. -/
theorem through_ret {b : α} : (ret b).Through who k s a s' ↔ a = b ∧ s' = s := by
  constructor
  · intro h
    cases h
    exact ⟨rfl, rfl⟩
  · rintro ⟨rfl, rfl⟩
    exact .ret _ _

/-- To go through one task after another is to go through the first and then through the second. -/
theorem through_bind {f : α → Task β} {k : β → Task Outcome} {b : β} : (t.bind f).Through who k s b s' ↔
    ∃ a s₁, t.Through who (fun a => (f a).bind k) s a s₁ ∧ (f a).Through who k s₁ b s' := by
  constructor
  · intro h
    generalize ht : t.bind f = t' at h
    induction h generalizing t with
    | ret b s =>
      cases t with
      | ret a =>
        have ht : f a = .ret b := ht
        exact ⟨a, s, .ret a s, ht.symm ▸ .ret b s⟩
      | request => nomatch ht
      | exhausted => nomatch ht
    | @answer r next s s' x w' b hx h ih =>
      cases t with
      | ret a =>
        have ht : f a = .request r next := ht
        exact ⟨a, s, .ret a s, ht.symm ▸ .answer hx h⟩
      | request r' next' =>
        cases ht
        obtain ⟨a, s₁, h₁, h₂⟩ := ih (t := next' x) rfl
        exact ⟨a, s₁, .answer hx h₁, h₂⟩
      | exhausted => nomatch ht
    | @wait r next s s₁ s' w' ds b hx hothers h ih =>
      cases t with
      | ret a =>
        have ht : f a = .request r next := ht
        exact ⟨a, s, .ret a s, ht.symm ▸ .wait hx hothers h⟩
      | request r' next' =>
        cases ht
        obtain ⟨a, s₂, h₁, h₂⟩ := ih (t := .request r next') rfl
        have hpart : ((s.on w').pool who ((request r next').bind fun a => (f a).bind k)).Goes ds
            (s₁.pool who ((request r next').bind fun a => (f a).bind k)) := by
          rwa [← bind_assoc]
        exact ⟨a, s₂, .wait hx hpart h₁, h₂⟩
      | exhausted => nomatch ht
  · rintro ⟨a, s₁, h₁, h₂⟩
    induction h₁ with
    | ret a s => exact h₂
    | answer hx _ ih => exact .answer hx (ih h₂)
    | @wait r next s s₁ s' w' ds a hx hothers _ ih =>
      rw [← bind_assoc] at hothers
      exact .wait hx hothers (ih h₂)

/-- Where nothing has to wait, nobody else moves. -/
theorem Through.alone {Q : α → World → Prop} (h : t.Through who k s a s') (halone : t.Alone who Q s.world) :
    s' = s.on s'.world ∧ Q a s'.world := by
  induction h with
  | ret a s => exact ⟨rfl, halone⟩
  | answer hx _ ih =>
    obtain ⟨x, w', hx', hnext⟩ := halone
    cases hx.symm.trans hx'
    exact ih hnext
  | wait hx =>
    obtain ⟨x, w', hx', -⟩ := halone
    nomatch hx.symm.trans hx'

/-- What runs alone is gone through. -/
theorem Alone.through {Q : α → World → Prop} (h : t.Alone who Q s.world) :
    ∃ a w', t.Through who k s a (s.on w') ∧ Q a w' := by
  induction t generalizing s with
  | ret a => exact ⟨a, s.world, .ret a s, h⟩
  | request r next ih =>
    obtain ⟨x, w₁, hx, hnext⟩ := h
    obtain ⟨a, w', hthrough, hQ⟩ := ih x (s := s.on w₁) hnext
    exact ⟨a, w', .answer hx hthrough, hQ⟩
  | exhausted => exact h.elim

/-- A turn in which a task ends. -/
theorem Through.of_turn {t : Task Outcome} {w w' : World} {o : Outcome} {fuel : Nat} {moved moved' : Bool}
    (before after : List (TaskId × Task Outcome)) (h : t.run who fuel moved w = (.ended o, moved', w')) :
    t.Through who .ret ⟨before, after, w⟩ o ⟨before, after, w'⟩ := by
  induction fuel generalizing t moved w with
  | zero => nomatch h
  | succ fuel ih =>
    cases t with
    | ret o' =>
      cases h
      exact .ret _ _
    | exhausted => nomatch h
    | request r next =>
      unfold Task.run at h
      split at h
      · rename_i hx
        exact .answer hx (ih h)
      · nomatch h

end Task

/-! ## Evaluation -/

namespace Eval

variable {α β : Type} {who : TaskId} {x : Eval α} {f : α → Eval β} {s s' : Site}

/-- An evaluation is gone through, and comes to a value or a failure. -/
abbrev Through (who : TaskId) (k : Except Exception α → Task Outcome) (x : Eval α) (s : Site) (o : Except Exception α)
    (s' : Site) : Prop :=
  Task.Through who k x.run s o s'

abbrev Passes (who : TaskId) (x : Eval α) (s : Site) (o : Except Exception α) (s' : Site) : Prop :=
  Task.Passes who x.run s o s'

variable {k : Except Exception β → Task Outcome} {o : Except Exception β}

/-- What follows an evaluation is gone through after a value, and left out after a failure. -/
theorem through_bind : (x >>= f).Through who k s o s' ↔
    (∃ ex, x.Through who (fun r => Task.bind (ExceptT.bindCont f r) k) s (.error ex) s' ∧ o = .error ex) ∨
      ∃ a s₁, x.Through who (fun r => Task.bind (ExceptT.bindCont f r) k) s (.ok a) s₁ ∧ (f a).Through who k s₁ o s' := by
  refine Task.through_bind.trans ⟨?_, ?_⟩
  · rintro ⟨r, s₁, h₁, h₂⟩
    cases r with
    | ok a => exact .inr ⟨a, s₁, h₁, h₂⟩
    | error ex =>
      obtain ⟨rfl, rfl⟩ := Task.through_ret.1 h₂
      exact .inl ⟨ex, h₁, rfl⟩
  · rintro (⟨ex, h, rfl⟩ | ⟨a, s₁, h₁, h₂⟩)
    · exact ⟨.error ex, s', h, .ret _ _⟩
    · exact ⟨.ok a, s₁, h₁, h₂⟩

/-- A task and then evaluation is the task and then the evaluation's task. -/
theorem run_lift_bind (t : Task α) (f : α → Eval β) : (ExceptT.lift t >>= f).run = t.bind fun a => (f a).run := by
  refine (Task.bind_assoc t _ _).trans ?_
  rfl

/-- Evaluation after a task is gone through after the task. -/
theorem through_lift_bind {t : Task α} :
    (ExceptT.lift t >>= f).Through who k s o s' ↔
      ∃ a s₁, t.Through who (fun a => Task.bind (f a).run k) s a s₁ ∧ (f a).Through who k s₁ o s' :=
  (Iff.of_eq (congrArg (Task.Through who k · s o s') (run_lift_bind t f))).trans Task.through_bind

/-- Whoever tries is gone through with what was tried. -/
theorem through_attempt_bind {f : Except Exception α → Eval β} :
    (attempt x >>= f).Through who k s o s' ↔
      ∃ r s₁, x.Through who (fun r => Task.bind (f r).run k) s r s₁ ∧ (f r).Through who k s₁ o s' := through_lift_bind

end Eval

end DualShell
