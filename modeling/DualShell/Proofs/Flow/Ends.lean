import DualShell.Proofs.Machine.Steps

/-!
# How evaluation ends

A run of a task is told by the requests it makes with the answers it gets, and by what it comes to in the end
(`Task.Ends`). Nothing is assumed of the answers, so what holds of all runs holds on every machine and in every state of
it. The answers decide the end (`Task.Ends.unique`), a run of a composition is one of its first part followed by one of
the second (`Task.ends_bind`), and what ends on a machine ended in such a run (`Pool.Goes.ended`).
-/

namespace DualShell

/-- A request and the answer it got. -/
structure Exchange where
  request : Request
  answer : request.Response

namespace Task

variable {α β : Type}

/-- The task comes to an end after the requests and answers of a run. -/
inductive Ends : Task α → List Exchange → α → Prop
  | ret (a : α) : (Task.ret a).Ends [] a
  | request {r : Request} {next : r.Response → Task α} {es : List Exchange} {a : α} (x : r.Response)
      (h : (next x).Ends es a) : (Task.request r next).Ends (⟨r, x⟩ :: es) a

variable {es : List Exchange}

/-- A task that is over ends with what it returned, and has asked nothing. -/
theorem ends_ret {a b : α} : (ret a).Ends es b ↔ es = [] ∧ b = a := by
  constructor
  · intro h
    cases h
    exact ⟨rfl, rfl⟩
  · rintro ⟨rfl, rfl⟩
    exact .ret b

/-- A task that runs out of rounds does not end. -/
theorem not_ends_exhausted {a : α} : ¬(exhausted : Task α).Ends es a := by
  intro h
  cases h

/-- A task that asks ends as it does with the answer. -/
theorem ends_request {r : Request} {next : r.Response → Task α} {a : α} :
    (request r next).Ends es a ↔ ∃ x rest, es = ⟨r, x⟩ :: rest ∧ (next x).Ends rest a := by
  constructor
  · intro h
    cases h with
    | request x h => exact ⟨x, _, rfl, h⟩
  · rintro ⟨x, rest, rfl, h⟩
    exact .request x h

/-- A run of one task after another is a run of the first and then one of the second. -/
theorem ends_bind {t : Task α} {f : α → Task β} {b : β} :
    (t.bind f).Ends es b ↔ ∃ es₁ es₂ a, es = es₁ ++ es₂ ∧ t.Ends es₁ a ∧ (f a).Ends es₂ b := by
  constructor
  · intro h
    induction t generalizing es with
    | ret a => exact ⟨[], es, a, rfl, .ret a, h⟩
    | request r next ih =>
      obtain ⟨x, rest, rfl, hrest⟩ := ends_request.1 h
      obtain ⟨es₁, es₂, a, rfl, h₁, h₂⟩ := ih x hrest
      exact ⟨⟨r, x⟩ :: es₁, es₂, a, rfl, .request x h₁, h₂⟩
    | exhausted => exact absurd h not_ends_exhausted
  · rintro ⟨es₁, es₂, a, rfl, h₁, h₂⟩
    induction h₁ with
    | ret a => exact h₂
    | request x _ ih => exact .request x (ih h₂)

/-- A task ends once: what ends after some of the answers ends after all of them. -/
theorem Ends.unique_within {t : Task α} {es' : List Exchange} {a b : α} (h : t.Ends es a) (h' : t.Ends es' b)
    (hwithin : es' <+: es) : es' = es ∧ b = a := by
  induction h generalizing es' with
  | ret a => exact ends_ret.1 h'
  | request x _ ih =>
    obtain ⟨x', rest, rfl, hrest⟩ := ends_request.1 h'
    obtain ⟨heq, htail⟩ := List.cons_prefix_cons.1 hwithin
    cases heq
    obtain ⟨rfl, rfl⟩ := ih hrest htail
    exact ⟨rfl, rfl⟩

/-- The answers decide how a task ends. -/
theorem Ends.unique {t : Task α} {a b : α} (h : t.Ends es a) (h' : t.Ends es b) : a = b :=
  (h.unique_within h' List.prefix_rfl).2.symm

end Task

/-! ## Evaluation -/

namespace Eval

variable {α β : Type} {x : Eval α} {f : α → Eval β} {es : List Exchange}

/-- The evaluation comes to a value or a failure after the requests and answers of a run. -/
abbrev Ends (x : Eval α) (es : List Exchange) (r : Except Exception α) : Prop := Task.Ends x.run es r

/-- What yields a value ends with it. -/
@[simp] theorem ends_pure {a : α} {r : Except Exception α} : (pure a : Eval α).Ends es r ↔ es = [] ∧ r = .ok a :=
  Task.ends_ret

/-- What throws ends with that failure. -/
@[simp] theorem ends_throw {ex : Exception} {r : Except Exception α} :
    (throw ex : Eval α).Ends es r ↔ es = [] ∧ r = .error ex :=
  Task.ends_ret

@[simp] theorem ends_fail {c : Cause} {r : Except Exception α} :
    (fail c : Eval α).Ends es r ↔ es = [] ∧ r = .error (.ofCause c) :=
  Task.ends_ret

/-- Evaluation that runs out of rounds does not end. -/
@[simp] theorem not_ends_exhausted {r : Except Exception α} : ¬(exhausted : Eval α).Ends es r := Task.not_ends_exhausted

@[simp] theorem ends_ofOutcome {o r : Outcome} : (ofOutcome o).Ends es r ↔ es = [] ∧ r = o := by
  cases o <;> exact Task.ends_ret

/-- A result ends as a value or as the failure of its cause. -/
theorem ends_ofExcept {v : Except Cause α} {r : Except Exception α} :
    (ofExcept v).Ends es r ↔ es = [] ∧ r = v.mapError Exception.ofCause := by
  cases v <;> exact Task.ends_ret

/-- A task in evaluation ends with what it comes to. -/
theorem ends_lift {t : Task α} {r : Except Exception α} :
    (ExceptT.lift t : Eval α).Ends es r ↔ ∃ a, t.Ends es a ∧ r = .ok a := by
  constructor
  · intro h
    obtain ⟨es₁, es₂, a, rfl, h₁, h₂⟩ := Task.ends_bind.1 h
    obtain ⟨rfl, rfl⟩ := Task.ends_ret.1 h₂
    exact ⟨a, by rwa [List.append_nil], rfl⟩
  · rintro ⟨a, h, rfl⟩
    exact Task.ends_bind.2 ⟨es, [], a, (List.append_nil es).symm, h, .ret _⟩

/-- Whatever evaluation comes to is had by whoever tries it. -/
@[simp] theorem ends_attempt {r : Except Exception (Except Exception α)} :
    (attempt x).Ends es r ↔ ∃ o, x.Ends es o ∧ r = .ok o :=
  ends_lift

/-- A request ends with its answer. -/
@[simp] theorem ends_ask {q : Request} {r : Except Exception q.Response} :
    (ask q).Ends es r ↔ ∃ a, es = [⟨q, a⟩] ∧ r = .ok a := by
  refine ends_lift.trans ⟨?_, ?_⟩
  · rintro ⟨a, h, rfl⟩
    obtain ⟨x, rest, rfl, hrest⟩ := Task.ends_request.1 h
    obtain ⟨rfl, rfl⟩ := Task.ends_ret.1 hrest
    exact ⟨a, rfl, rfl⟩
  · rintro ⟨a, rfl, rfl⟩
    exact ⟨a, .request a (.ret a), rfl⟩

/-- Evaluation that goes on after a value ends in the failure of the first part, or goes through both parts. -/
theorem ends_bind {r : Except Exception β} :
    (x >>= f).Ends es r ↔ (∃ ex, x.Ends es (.error ex) ∧ r = .error ex) ∨
      ∃ es₁ es₂ a, es = es₁ ++ es₂ ∧ x.Ends es₁ (.ok a) ∧ (f a).Ends es₂ r := by
  refine Task.ends_bind.trans ⟨?_, ?_⟩
  · rintro ⟨es₁, es₂, o, rfl, h₁, h₂⟩
    cases o with
    | ok a => exact .inr ⟨es₁, es₂, a, rfl, h₁, h₂⟩
    | error ex =>
      obtain ⟨rfl, rfl⟩ := Task.ends_ret.1 h₂
      exact .inl ⟨ex, by rwa [List.append_nil], rfl⟩
  · rintro (⟨ex, h, rfl⟩ | ⟨es₁, es₂, a, rfl, h₁, h₂⟩)
    · exact ⟨es, [], .error ex, (List.append_nil es).symm, h, .ret _⟩
    · exact ⟨es₁, es₂, .ok a, rfl, h₁, h₂⟩

/-- One part after another ends as the second one does. -/
theorem Ends.bind {es₁ es₂ : List Exchange} {a : α} {r : Except Exception β} (h : x.Ends es₁ (.ok a))
    (h' : (f a).Ends es₂ r) : (x >>= f).Ends (es₁ ++ es₂) r := ends_bind.2 (.inr ⟨es₁, es₂, a, rfl, h, h'⟩)

theorem Ends.bind_last {a : α} {r : Except Exception β} (h : x.Ends es (.ok a)) (h' : (f a).Ends [] r) :
    (x >>= f).Ends es r :=
  ends_bind.2 (.inr ⟨es, [], a, (List.append_nil es).symm, h, h'⟩)

/-- If the first part fails, so does the whole. -/
theorem Ends.bind_error {ex : Exception} (h : x.Ends es (.error ex)) : (x >>= f).Ends es (.error ex) :=
  ends_bind.2 (.inl ⟨ex, h, rfl⟩)

/-- Nothing fails in between, as when the first part is a request or was attempted. -/
theorem ends_bind_of_ok {r : Except Exception β} (hx : ∀ es ex, ¬x.Ends es (.error ex)) :
    (x >>= f).Ends es r ↔ ∃ es₁ es₂ a, es = es₁ ++ es₂ ∧ x.Ends es₁ (.ok a) ∧ (f a).Ends es₂ r :=
  ends_bind.trans ⟨fun h => h.resolve_left fun ⟨ex, h, _⟩ => hx es ex h, .inr⟩

/-- A computation that may fail, and what follows its success. -/
theorem ends_ofExcept_bind {v : Except Cause α} {r : Except Exception β} :
    (ofExcept v >>= f).Ends es r ↔ (∃ c, v = .error c ∧ es = [] ∧ r = .error (.ofCause c)) ∨ ∃ a, v = .ok a ∧
    (f a).Ends es r := by
  constructor
  · intro h
    cases v with
    | ok a => exact .inr ⟨a, rfl, h⟩
    | error c => exact .inl ⟨c, rfl, ends_fail.1 h⟩
  · rintro (⟨c, rfl, h⟩ | ⟨a, rfl, h⟩)
    · exact ends_fail.2 h
    · exact h

/-- A request and what follows its answer. -/
theorem ends_ask_bind {q : Request} {f : q.Response → Eval β} {r : Except Exception β} :
    (ask q >>= f).Ends es r ↔ ∃ a rest, es = ⟨q, a⟩ :: rest ∧ (f a).Ends rest r := Task.ends_request

/-- An evaluation whose failure is looked at, and what follows. -/
theorem ends_attempt_bind {f : Except Exception α → Eval β} {r : Except Exception β} :
    (attempt x >>= f).Ends es r ↔ ∃ es₁ es₂ o, es = es₁ ++ es₂ ∧ x.Ends es₁ o ∧ (f o).Ends es₂ r := by
  refine (ends_bind_of_ok fun es ex h => ?_).trans ⟨?_, ?_⟩
  · obtain ⟨o, -, ho⟩ := ends_attempt.1 h
    cases ho
  · rintro ⟨es₁, es₂, o, rfl, h₁, h₂⟩
    obtain ⟨o', h₁, heq⟩ := ends_attempt.1 h₁
    cases heq
    exact ⟨es₁, es₂, o, rfl, h₁, h₂⟩
  · rintro ⟨es₁, es₂, o, rfl, h₁, h₂⟩
    exact ⟨es₁, es₂, o, rfl, ends_attempt.2 ⟨o, h₁, rfl⟩, h₂⟩

end Eval

/-! ## Ends on a machine -/

/-- What ends while tasks go on is one of them, or was started meanwhile, and ends in a run of it. -/
theorem Pool.Goes.ended {p p' : Pool} {ds : List Deed} (h : p.Goes ds p') {who : TaskId} {o : Outcome}
    (ho : .ended who o ∈ ds) :
    ∃ t es, ((who, t) ∈ p.tasks ∨ ∃ (l : Limits) (work : Work), t = l.evaluator.evalWork work) ∧ t.Ends es o := by
  induction h with
  | refl p => exact absurd ho List.not_mem_nil
  | @step p p' p'' ds ds' hs _ ih =>
    rcases List.mem_append.1 ho with hd | hd
    · cases hs with
      | answer => cases List.mem_singleton.1 hd
      | finish =>
        cases List.mem_singleton.1 hd
        exact ⟨_, [], .inl (List.mem_append_right _ List.mem_cons_self), .ret _⟩
      | wait | giveUp | takeUp => exact absurd hd List.not_mem_nil
    · obtain ⟨t, es, ht, hends⟩ := ih hd
      rcases ht with ht | hstarted
      · cases hs with
        | answer =>
          rcases List.mem_append.1 ht with hb | hb
          · exact ⟨t, es, .inl (List.mem_append_left _ hb), hends⟩
          · rcases List.mem_cons.1 hb with heq | hb
            · cases heq
              exact ⟨_, _, .inl (List.mem_append_right _ List.mem_cons_self), .request _ hends⟩
            · exact ⟨t, es, .inl (List.mem_append_right _ (List.mem_cons_of_mem _ hb)), hends⟩
        | wait => exact ⟨t, es, .inl ht, hends⟩
        | finish | giveUp =>
          refine ⟨t, es, .inl ?_, hends⟩
          exact (List.mem_append.1 ht).elim (List.mem_append_left _) fun hb =>
            List.mem_append_right _ (List.mem_cons_of_mem _ hb)
        | takeUp l =>
          rcases List.mem_append.1 ht with hb | hb
          · exact ⟨t, es, .inl hb, hends⟩
          · obtain ⟨s, -, heq⟩ := List.mem_map.1 hb
            cases heq
            exact ⟨_, es, .inr ⟨l, s.2, rfl⟩, hends⟩
      · exact ⟨t, es, .inr hstarted, hends⟩

end DualShell
