import DualShell.Proofs.Flow.Boundary

/-!
# Protected bodies

What a `try` form does is told by its parts (`Evaluator.protection`): its body runs first; by how that ended, the third
part runs, or the failure is bound and handled, or neither; the last part runs after whatever ran of these, and its
failure replaces theirs. The law is about runs that end and about runs that are going on (`Task.Makes`), which may never
end; so the last part is not reached before the others are over, and nothing keeps a run from it once they are.
-/

namespace DualShell

open Eval

variable {e : Evaluator} {ctx : Context} {es : List Exchange}

/-! ## Runs that are going on -/

namespace Task

variable {α β : Type}

/-- The task makes these requests one after the other, if they are answered so. -/
inductive Makes : Task α → List Exchange → Prop
  | nothing (t : Task α) : t.Makes []
  | request {r : Request} {next : r.Response → Task α} {es : List Exchange} (x : r.Response) (h : (next x).Makes es) :
      (Task.request r next).Makes (⟨r, x⟩ :: es)

/-- A task that asks is at its request or goes on from an answer. -/
theorem makes_request {r : Request} {next : r.Response → Task α} :
    (request r next).Makes es ↔ es = [] ∨ ∃ x rest, es = ⟨r, x⟩ :: rest ∧ (next x).Makes rest := by
  constructor
  · intro h
    cases h with
    | nothing => exact .inl rfl
    | request x h => exact .inr ⟨x, _, rfl, h⟩
  · rintro (rfl | ⟨x, rest, rfl, h⟩)
    · exact .nothing _
    · exact .request x h

/-- A run that ended went on. -/
theorem Ends.makes {t : Task α} {a : α} (h : t.Ends es a) : t.Makes es := by
  induction h with
  | ret a => exact .nothing _
  | request x _ ih => exact .request x ih

/-- A run of one task after another is going on in the first, or has ended there and is going on in the second. -/
theorem makes_bind {t : Task α} {f : α → Task β} :
    (t.bind f).Makes es ↔ t.Makes es ∨ ∃ es₁ es₂ a, es = es₁ ++ es₂ ∧ t.Ends es₁ a ∧ (f a).Makes es₂ := by
  constructor
  · intro h
    induction t generalizing es with
    | ret a => exact .inr ⟨[], es, a, rfl, .ret a, h⟩
    | request r next ih =>
      obtain rfl | ⟨x, rest, rfl, hrest⟩ := makes_request.1 h
      · exact .inl (.nothing _)
      · obtain hfirst | ⟨es₁, es₂, a, rfl, h₁, h₂⟩ := ih x hrest
        · exact .inl (.request x hfirst)
        · exact .inr ⟨⟨r, x⟩ :: es₁, es₂, a, rfl, .request x h₁, h₂⟩
    | exhausted =>
      cases h
      exact .inl (.nothing _)
  · rintro (h | ⟨es₁, es₂, a, rfl, h₁, h₂⟩)
    · induction h with
      | nothing t => exact .nothing _
      | request x _ ih => exact .request x ih
    · induction h₁ with
      | ret a => exact h₂
      | request x _ ih => exact .request x (ih h₂)

end Task

namespace Eval

variable {α β : Type} {x : Eval α}

/-- The evaluation makes these requests one after the other, if they are answered so. -/
abbrev Makes (x : Eval α) (es : List Exchange) : Prop := Task.Makes x.run es

/-- A run that ended is one that goes on up to its end. -/
theorem Ends.makes {r : Except Exception α} (h : x.Ends es r) : x.Makes es := Task.Ends.makes h

/-- Evaluation one part after another is in the first or in the second. -/
theorem makes_bind {f : α → Eval β} :
    (x >>= f).Makes es ↔ x.Makes es ∨ ∃ es₁ es₂ a, es = es₁ ++ es₂ ∧ x.Ends es₁ (.ok a) ∧ (f a).Makes es₂ := by
  refine Task.makes_bind.trans ⟨?_, ?_⟩
  · rintro (h | ⟨es₁, es₂, o, rfl, h₁, h₂⟩)
    · exact .inl h
    · cases o with
      | ok a => exact .inr ⟨es₁, es₂, a, rfl, h₁, h₂⟩
      | error ex =>
        cases h₂
        rw [List.append_nil]
        exact .inl h₁.makes
  · rintro (h | ⟨es₁, es₂, a, rfl, h₁, h₂⟩)
    · exact .inl h
    · exact .inr ⟨es₁, es₂, .ok a, rfl, h₁, h₂⟩

/-- Who tries is in what is tried, or in what comes after. -/
theorem makes_attempt_bind {f : Except Exception α → Eval β} :
    (attempt x >>= f).Makes es ↔ x.Makes es ∨ ∃ es₁ es₂ o, es = es₁ ++ es₂ ∧ x.Ends es₁ o ∧ (f o).Makes es₂ := by
  have hattempt : (attempt x).Makes es ↔ x.Makes es := by
    refine Task.makes_bind.trans ⟨?_, .inl⟩
    rintro (h | ⟨es₁, es₂, o, rfl, h₁, h₂⟩)
    · exact h
    · cases h₂
      rw [List.append_nil]
      exact h₁.makes
  rw [makes_bind, hattempt]
  simp only [ends_attempt, Except.ok.injEq, exists_eq_right']

end Eval

/-! ## What follows a protected body -/

/-- A failure becomes the value of a handler's variable, if it has one. -/
def Code.Handler.bind (h : Code.Handler) (ex : Exception) (ctx : Context) : Eval Unit :=
  match h.ref with
  | some ref => do ref.write ctx (.exception (← ask .identity) ex)
  | none => pure ()

namespace Evaluator

/-- A handler binds its variable and then runs its body. -/
theorem handle_eq (e : Evaluator) (h : Code.Handler) (ex : Exception) (ctx : Context) :
    e.handle h ex ctx = (do h.bind ex ctx; e.block h.body ctx) := by
  unfold handle Code.Handler.bind
  cases h.ref <;> simp

/-- A run of what follows a protected body, by how the body ended. -/
inductive Middle (e : Evaluator) (clause : Option Code.Handler) (otherwise : Option Code.Block) (ctx : Context) :
    Outcome → List Exchange → Outcome → Prop
  /-- After success the third part runs. -/
  | third {es : List Exchange} {o : Outcome} (h : (e.optional otherwise ctx).Ends es o) :
      Middle e clause otherwise ctx (.ok ()) es o
  /-- A failure that is no flow signal goes to the handler: if it cannot be bound, nothing else runs. -/
  | unbound {h : Code.Handler} {ex ex' : Exception} {es : List Exchange} (hclause : clause = some h)
      (hflow : ex.isFlow = false)
      (hbind : (h.bind ex ctx).Ends es (.error ex')) : Middle e clause otherwise ctx (.error ex) es (.error ex')
  | handled {h : Code.Handler} {ex : Exception} {es₁ es₂ : List Exchange} {o : Outcome} (hclause : clause = some h)
      (hflow : ex.isFlow = false) (hbind : (h.bind ex ctx).Ends es₁ (.ok ())) (hbody : (e.block h.body ctx).Ends es₂ o) :
      Middle e clause otherwise ctx (.error ex) (es₁ ++ es₂) o
  /-- Without a handler, or if it is a flow signal, nothing runs. -/
  | passed {ex : Exception} (h : clause = none ∨ ex.isFlow = true) : Middle e clause otherwise ctx (.error ex) [] (.error ex)

/-- Such a run as it is going on. -/
inductive Amid (e : Evaluator) (clause : Option Code.Handler) (otherwise : Option Code.Block) (ctx : Context) :
    Outcome → List Exchange → Prop
  | third {es : List Exchange} (h : (e.optional otherwise ctx).Makes es) : Amid e clause otherwise ctx (.ok ()) es
  | binding {h : Code.Handler} {ex : Exception} {es : List Exchange} (hclause : clause = some h) (hflow : ex.isFlow = false)
      (hbind : (h.bind ex ctx).Makes es) : Amid e clause otherwise ctx (.error ex) es
  | handling {h : Code.Handler} {ex : Exception} {es₁ es₂ : List Exchange} (hclause : clause = some h)
      (hflow : ex.isFlow = false) (hbind : (h.bind ex ctx).Ends es₁ (.ok ())) (hbody : (e.block h.body ctx).Makes es₂) :
      Amid e clause otherwise ctx (.error ex) (es₁ ++ es₂)

variable {clause : Option Code.Handler} {otherwise : Option Code.Block}

/-- A failure that is no flow signal goes to the handler. -/
theorem afterBody_error {h : Code.Handler} {ex : Exception} (hflow : ex.isFlow = false) :
    e.afterBody (some h) otherwise ctx (.error ex) = (do h.bind ex ctx; e.block h.body ctx) := by
  rw [← handle_eq]
  exact if_neg (hflow ▸ Bool.false_ne_true)

/-- A failure without a handler, or a flow signal, is passed on. -/
theorem afterBody_passed {ex : Exception} (h : clause = none ∨ ex.isFlow = true) :
    e.afterBody clause otherwise ctx (.error ex) = throw ex := by
  cases clause with
  | none => rfl
  | some => exact if_pos (h.resolve_left nofun)

/-- A failure is passed on or handled. -/
theorem passed_or_handled (clause : Option Code.Handler) (ex : Exception) :
    (clause = none ∨ ex.isFlow = true) ∨ ∃ h, clause = some h ∧ ex.isFlow = false := by
  cases clause with
  | none => exact .inl (.inl rfl)
  | some h =>
    cases hflow : ex.isFlow with
    | true => exact .inl (.inr rfl)
    | false => exact .inr ⟨h, rfl, rfl⟩

/-- What follows a protected body ends as `Middle` says. -/
theorem ends_middle {o r : Outcome} : (e.afterBody clause otherwise ctx o).Ends es r ↔
    e.Middle clause otherwise ctx o es r := by
  constructor
  · intro h
    rcases o with ex | ⟨⟩
    · obtain hpassed | ⟨handler, rfl, hflow⟩ := passed_or_handled clause ex
      · rw [afterBody_passed hpassed] at h
        obtain ⟨rfl, rfl⟩ := ends_throw.1 h
        exact .passed hpassed
      · rw [afterBody_error hflow] at h
        obtain ⟨ex', hbind, rfl⟩ | ⟨es₁, es₂, ⟨⟩, rfl, hbind, hbody⟩ := ends_bind.1 h
        · exact .unbound rfl hflow hbind
        · exact .handled rfl hflow hbind hbody
    · exact .third h
  · intro h
    cases h with
    | third h => exact h
    | unbound hclause hflow hbind =>
      rw [hclause, afterBody_error hflow]
      exact hbind.bind_error
    | handled hclause hflow hbind hbody =>
      rw [hclause, afterBody_error hflow]
      exact hbind.bind hbody
    | passed hpassed =>
      rw [afterBody_passed hpassed]
      exact ends_throw.2 ⟨rfl, rfl⟩

/-- While it goes on it is as `Amid` says, if anything was done yet. -/
theorem makes_middle {o : Outcome} (h : (e.afterBody clause otherwise ctx o).Makes es) :
    es = [] ∨ e.Amid clause otherwise ctx o es := by
  rcases o with ex | ⟨⟩
  · obtain hpassed | ⟨handler, rfl, hflow⟩ := passed_or_handled clause ex
    · rw [afterBody_passed hpassed] at h
      cases h
      exact .inl rfl
    · rw [afterBody_error hflow] at h
      obtain hbind | ⟨es₁, es₂, ⟨⟩, rfl, hbind, hbody⟩ := makes_bind.1 h
      · exact .inr (.binding rfl hflow hbind)
      · exact .inr (.handling rfl hflow hbind hbody)
  · exact .inr (.third h)

/-- All that `Amid` says does happen. -/
theorem Amid.makes {o : Outcome} (h : e.Amid clause otherwise ctx o es) : (e.afterBody clause otherwise ctx o).Makes es := by
  cases h with
  | third h => exact h
  | binding hclause hflow hbind =>
    rw [hclause, afterBody_error hflow]
    exact makes_bind.2 (.inl hbind)
  | handling hclause hflow hbind hbody =>
    rw [hclause, afterBody_error hflow]
    exact makes_bind.2 (.inr ⟨_, _, (), rfl, hbind, hbody⟩)

/-! ## The whole form -/

/-- The law of a protected body. -/
structure Protection (e : Evaluator) (body : Code.Block) (clause : Option Code.Handler)
    (otherwise finally_ : Option Code.Block) (ctx : Context) : Prop where
  /-- A run that ends is one of the body, one of what follows it, and one of the last part. It ends in the failure of
  the last part, or else as what followed the body did. -/
  ends : ∀ es r, (e.evalSpecial (.attempt body clause otherwise finally_) ctx).Ends es r ↔
    ∃ es₁ es₂ es₃ ended before last, es = es₁ ++ (es₂ ++ es₃) ∧ (e.block body ctx).Ends es₁ ended ∧
      e.Middle clause otherwise ctx ended es₂ before ∧ (e.optional finally_ ctx).Ends es₃ last ∧
      r = match last with
        | .error ex => .error ex
        | .ok () => before
  /-- A run that is going on is in the body, or in what follows it once that ended, or in the last part once both did. -/
  underway : ∀ es, (e.evalSpecial (.attempt body clause otherwise finally_) ctx).Makes es ↔
    (e.block body ctx).Makes es ∨
    (∃ es₁ es₂ ended, es = es₁ ++ es₂ ∧ (e.block body ctx).Ends es₁ ended ∧ e.Amid clause otherwise ctx ended es₂) ∨
    ∃ es₁ es₂ es₃ ended before, es = es₁ ++ (es₂ ++ es₃) ∧ (e.block body ctx).Ends es₁ ended ∧
      e.Middle clause otherwise ctx ended es₂ before ∧ (e.optional finally_ ctx).Makes es₃

/-- The law of `try`: for all parts, all surroundings, and all answers that their requests get. -/
theorem protection (e : Evaluator) (body : Code.Block) (clause : Option Code.Handler)
    (otherwise finally_ : Option Code.Block) (ctx : Context) : e.Protection body clause otherwise finally_ ctx where
  ends es r := by
    refine ends_attemptForm.trans ⟨?_, ?_⟩
    · rintro ⟨es₁, es₂, es₃, ended, before, last, rfl, hbody, hmiddle, hlast, rfl⟩
      exact ⟨es₁, es₂, es₃, ended, before, last, rfl, hbody, ends_middle.1 (ends_afterBody.2 hmiddle), hlast,
        by cases last <;> rfl⟩
    · rintro ⟨es₁, es₂, es₃, ended, before, last, rfl, hbody, hmiddle, hlast, rfl⟩
      exact ⟨es₁, es₂, es₃, ended, before, last, rfl, hbody, ends_afterBody.1 (ends_middle.2 hmiddle), hlast,
        by cases last <;> rfl⟩
  underway es := by
    constructor
    · intro h
      obtain hbody | ⟨es₁, rest, ended, rfl, hbody, h⟩ := makes_attempt_bind.1 h
      · exact .inl hbody
      obtain hmiddle | ⟨es₂, es₃, before, rfl, hmiddle, h⟩ := makes_attempt_bind.1 h
      · obtain rfl | hamid := makes_middle hmiddle
        · rw [List.append_nil]
          exact .inl hbody.makes
        · exact .inr (.inl ⟨es₁, rest, ended, rfl, hbody, hamid⟩)
      · refine .inr (.inr ⟨es₁, es₂, es₃, ended, before, rfl, hbody, ends_middle.1 hmiddle, ?_⟩)
        obtain hlast | ⟨es₃, es₄, ⟨⟩, rfl, hlast, h⟩ := makes_bind.1 h
        · exact hlast
        · cases before <;> cases h <;> exact (List.append_nil es₃).symm ▸ hlast.makes
    · rintro (hbody | ⟨es₁, es₂, ended, rfl, hbody, hamid⟩ | ⟨es₁, es₂, es₃, ended, before, rfl, hbody, hmiddle, hlast⟩)
      · exact makes_attempt_bind.2 (.inl hbody)
      · exact makes_attempt_bind.2 (.inr ⟨es₁, es₂, ended, rfl, hbody, makes_attempt_bind.2 (.inl hamid.makes)⟩)
      · exact makes_attempt_bind.2 (.inr ⟨es₁, _, ended, rfl, hbody,
          makes_attempt_bind.2 (.inr ⟨es₂, es₃, before, rfl, ends_middle.2 hmiddle, makes_bind.2 (.inl hlast)⟩)⟩)

end Evaluator

end DualShell
