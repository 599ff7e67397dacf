import DualShell.Eval.Run

/-!
# Tasks that run alone

What a task comes to that nothing else runs beside: each of its requests is answered at once, and it ends
(`Task.Alone`). This is total correctness, read off the tree of requests together with the machine that answers them; it
composes along `bind`, and such a task ends within one turn of the scheduler (`Limits.run_alone`).
-/

namespace DualShell

/-- Every request of the task is answered when it is made, the task ends, and `Q` holds of what it yields and of the
machine it leaves. -/
def Task.Alone {α : Type} (who : TaskId) (Q : α → World → Prop) : Task α → World → Prop
  | .ret a, w => Q a w
  | .request r next, w => ∃ x w', w.perform who r = (some x, w') ∧ (next x).Alone who Q w'
  | .exhausted, _ => False

namespace Task.Alone

variable {α β : Type} {who : TaskId} {Q : α → World → Prop} {t : Task α} {w : World}

/-- Less may be concluded of a task that goes through alone. -/
theorem mono {R : α → World → Prop} (h : t.Alone who Q w) (hQ : ∀ a w', Q a w' → R a w') : t.Alone who R w := by
  induction t generalizing w with
  | ret a => exact hQ a w h
  | request r next ih =>
    obtain ⟨x, w', hx, hnext⟩ := h
    exact ⟨x, w', hx, ih x hnext⟩
  | exhausted => exact h

/-- A task goes through alone part after part. -/
theorem bind {f : α → Task β} {R : β → World → Prop} (h : t.Alone who (fun a w' => (f a).Alone who R w') w) :
    (t.bind f).Alone who R w := by
  induction t generalizing w with
  | ret a => exact h
  | request r next ih =>
    obtain ⟨x, w', hx, hnext⟩ := h
    exact ⟨x, w', hx, ih x hnext⟩
  | exhausted => exact h.elim

/-- A turn that is long enough brings the task to its end. -/
theorem run {t : Task Outcome} {Q : Outcome → World → Prop} (h : t.Alone who Q w) : ∃ o w', Q o w' ∧
    ∃ enough, ∀ fuel, enough ≤ fuel → ∀ moved, t.run who fuel moved w = (.ended o, true, w') := by
  induction t generalizing w with
  | ret o =>
    refine ⟨o, w, h, 1, fun fuel hfuel moved => ?_⟩
    obtain ⟨fuel, rfl⟩ := Nat.exists_eq_add_of_le' hfuel
    rfl
  | request r next ih =>
    obtain ⟨x, w₁, hx, hnext⟩ := h
    obtain ⟨o, w', hQ, enough, hrun⟩ := ih x hnext
    refine ⟨o, w', hQ, enough + 1, fun fuel hfuel moved => ?_⟩
    obtain ⟨more, rfl⟩ := Nat.exists_eq_add_of_le' hfuel
    rw [← Nat.add_assoc]
    unfold Task.run
    rw [hx]
    exact hrun _ (Nat.le_add_left _ _) true
  | exhausted => exact h.elim

end Task.Alone

/-! ## Evaluation -/

namespace Eval

variable {α β : Type} {who : TaskId} {Q : Except Exception α → World → Prop} {R : Except Exception β → World → Prop}
    {x : Eval α}
  {f : α → Eval β} {w w' : World}

/-- The evaluation is never kept waiting and comes to a value or a failure. -/
abbrev Alone (who : TaskId) (Q : Except Exception α → World → Prop) (x : Eval α) (w : World) : Prop :=
  Task.Alone who Q x.run w

theorem alone_pure {a : α} (h : Q (.ok a) w) : (pure a : Eval α).Alone who Q w := h

/-- A failure is what evaluation comes to at once. -/
theorem alone_throw {ex : Exception} (h : Q (.error ex) w) : (throw ex : Eval α).Alone who Q w := h

theorem alone_fail {c : Cause} (h : Q (.error (.ofCause c)) w) : (fail c : Eval α).Alone who Q w := h

/-- The second part of evaluation goes through alone where the first one succeeded. -/
theorem alone_bind (h : x.Alone who (fun o w' =>
    match o with
    | .ok a => (f a).Alone who R w'
    | .error ex => R (.error ex) w') w) : (x >>= f).Alone who R w := by
  refine Task.Alone.bind (Task.Alone.mono h fun o w' ho => ?_)
  cases o with
  | ok a => exact ho
  | error ex => exact ho

/-- Whoever tries goes through alone with what was tried. -/
theorem alone_attempt_bind {f : Except Exception α → Eval β} (h : x.Alone who (fun o w' => (f o).Alone who R w') w) :
    (attempt x >>= f).Alone who R w :=
  Task.Alone.bind (Task.Alone.bind (Task.Alone.mono h fun _ _ ho => ho))

/-- A request and what follows its answer. -/
theorem alone_ask_bind {r : Request} {f : r.Response → Eval β} {a : r.Response} (ha : w.perform who r = (some a, w'))
    (h : (f a).Alone who R w') : (ask r >>= f).Alone who R w := ⟨a, w', ha, h⟩

/-- A request that is answered at once is gone through. -/
theorem alone_ask {r : Request} {Q : Except Exception r.Response → World → Prop} {a : r.Response}
    (ha : w.perform who r = (some a, w')) (h : Q (.ok a) w') : (ask r).Alone who Q w := ⟨a, w', ha, h⟩

end Eval

/-! ## The scheduler -/

/-- A task that starts nothing and runs on a machine where nothing else is to run has an outcome after a turn that is
long enough. -/
theorem Limits.run_alone {l : Limits} (hrounds : 2 ≤ l.rounds) {main : Task Outcome} {w : World} (hspawned : w.spawned = [])
    {Q : Outcome → World → Prop} (hquiet : ∀ o w', Q o w' → w'.spawned = [] ∧ ∀ e ∈ w'.ended, e.1 ≠ w.nextTask)
    (h : main.Alone w.nextTask Q { w with nextTask := w.nextTask + 1 }) : ∃ o w', Q o w' ∧
      ∃ enough, ∀ requests, enough ≤ requests → ({ l with requests } : Limits).run main w = (some o, w') := by
  obtain ⟨o, w', hQ, enough, hrun⟩ := h.run
  obtain ⟨hspawned', hended⟩ := hquiet o w' hQ
  refine ⟨o, w', hQ, enough, fun requests hrequests => ?_⟩
  obtain ⟨rounds, hrounds⟩ := Nat.exists_eq_add_of_le' hrounds
  have hturn := hrun requests hrequests false
  have hadopt : ∀ start, Pool.adopt start ⟨[(w.nextTask, main)], { w with nextTask := w.nextTask + 1 }⟩ =
      ⟨[(w.nextTask, main)], { w with nextTask := w.nextTask + 1 }⟩ := by
    intro start
    simp [Pool.adopt, hspawned]
  have hadopt' : ∀ start, Pool.adopt start ⟨[], w'.endTask w.nextTask o⟩ = ⟨[], w'.endTask w.nextTask o⟩ := by
    intro start
    simp [Pool.adopt, World.endTask, hspawned']
  have hround : Pool.round requests [(w.nextTask, main)] { w with nextTask := w.nextTask + 1 } =
      ([], true, w'.endTask w.nextTask o) := by
    simp [Pool.round, Pool.turn, hturn]
  have hpool : ∀ start, Pool.run start requests l.rounds ⟨[(w.nextTask, main)], { w with nextTask := w.nextTask + 1 }⟩ =
      ⟨[], w'.endTask w.nextTask o⟩ := by
    intro start
    rw [hrounds]
    simp [Pool.run, hadopt, hround, hadopt']
  have hnot : w'.ended.find? (·.1 == w.nextTask) = none := List.find?_eq_none.2 fun e he => by simpa using hended e he
  have hkept : w'.ended.filter (·.1 != w.nextTask) = w'.ended := List.filter_eq_self.2 fun e he => by simpa using hended e he
  simp only [Limits.run, hpool, World.takeEnded, World.endTask, List.find?_append, hnot, List.filter_append, hkept]
  simp

end DualShell
