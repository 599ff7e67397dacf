import Mathlib.Logic.Relation
import DualShell.Proofs.Flow.Ends
import DualShell.Proofs.Machine.Through

/-!
# What a machine answers

A run of a task tells which requests it makes and which answers it gets (`Task.Ends`); a machine gives those answers one
after the other while others move it (`World.Serves`). What a task goes through on a machine is a run of it that the
machine serves (`Task.Through.served`), so what is to be known of a task can be read off its runs, and what the answers
mean off the machine.
-/

namespace DualShell

namespace World

/-- Something happens on a machine: a step of tasks that run on it. -/
def Moves (w w' : World) : Prop := ∃ p ds p', Pool.Step p ds p' ∧ p.world = w ∧ p'.world = w'

/-- What may become of a machine. -/
abbrev Leads : World → World → Prop := Relation.ReflTransGen Moves

/-- An answer moves the machine. -/
theorem Moves.answer {w w' : World} {who : TaskId} {r : Request} {x : r.Response}
    (hx : w.perform who r = (some x, w')) : w.Moves w' :=
  ⟨_, _, _, @Pool.Step.answer [] who r (fun _ => .exhausted) [] w x w' hx, rfl, rfl⟩

/-- A request that waits moves the machine. -/
theorem Moves.wait {w w' : World} {who : TaskId} {r : Request} (hx : w.perform who r = (none, w')) : w.Moves w' :=
  ⟨_, _, _, @Pool.Step.wait [] who r (fun _ => .exhausted) [] w w' hx, rfl, rfl⟩

/-- The machine gives the answers to a task one after the other; in between, others move it. -/
inductive Serves (Others : World → World → Prop) (who : TaskId) : World → List Exchange → World → Prop
  | nil (w : World) : Serves Others who w [] w
  | answer {w w' w'' : World} {e : Exchange} {es : List Exchange} (hx : w.perform who e.request = (some e.answer, w'))
    (h : Serves Others who w' es w'') : Serves Others who w (e :: es) w''
  | others {w w' w'' : World} {es : List Exchange} (ho : Others w w') (h : Serves Others who w' es w'') :
      Serves Others who w es w''

namespace Serves

variable {Others : World → World → Prop} {who : TaskId} {w w' w'' : World} {es es' : List Exchange} {e : Exchange}

/-- Whoever is served is led from one machine to another. -/
theorem leads (ho : ∀ {v v'}, Others v v' → v.Leads v') (h : w.Serves Others who es w') : w.Leads w' := by
  induction h with
  | nil => exact .refl
  | answer hx _ ih => exact .head (.answer hx) ih
  | others hmove _ ih => exact (ho hmove).trans ih

/-- The machine gives the first answers, and then the others. -/
theorem split (h : w.Serves Others who (es ++ es') w'') :
    ∃ w', w.Serves Others who es w' ∧ w'.Serves Others who es' w'' := by
  generalize hall : es ++ es' = all at h
  induction h generalizing es with
  | nil w =>
    obtain ⟨rfl, rfl⟩ := List.append_eq_nil_iff.1 hall
    exact ⟨w, .nil w, .nil w⟩
  | @answer w w₁ w₂ e rest hx h ih =>
    cases es with
    | nil =>
      obtain rfl : es' = e :: rest := hall
      exact ⟨w, .nil w, .answer hx h⟩
    | cons e' es =>
      obtain ⟨rfl, hrest⟩ := List.cons.inj hall
      obtain ⟨w', h₁, h₂⟩ := ih hrest
      exact ⟨w', .answer hx h₁, h₂⟩
  | others ho _ ih =>
    obtain ⟨w', h₁, h₂⟩ := ih hall
    exact ⟨w', .others ho h₁, h₂⟩

/-- Others may move the machine before it gives the first answer. -/
theorem first (h : w.Serves Others who (e :: es) w'') :
    ∃ v v', w.Serves Others who [] v ∧ v.perform who e.request = (some e.answer, v') ∧ v'.Serves Others who es w'' := by
  generalize hall : e :: es = all at h
  induction h with
  | nil => cases hall
  | @answer w _ _ _ _ hx h _ =>
    cases hall
    exact ⟨w, _, .nil w, hx, h⟩
  | others ho _ ih =>
    obtain ⟨v, v', h₁, h₂, h₃⟩ := ih hall
    exact ⟨v, v', .others ho h₁, h₂, h₃⟩

/-- Each of the answers is given by the machine as it is then. -/
theorem answered (h : w.Serves Others who es w') (he : e ∈ es) : ∃ before after v v', es = before ++ e :: after ∧
    w.Serves Others who before v ∧ v.perform who e.request = (some e.answer, v') ∧ v'.Serves Others who after w' := by
  induction h with
  | nil => cases he
  | @answer w w₁ w₂ e' es hx h ih =>
    rcases List.mem_cons.1 he with rfl | he
    · exact ⟨[], es, w, w₁, rfl, .nil w, hx, h⟩
    · obtain ⟨before, after, v, v', rfl, h₁, h₂, h₃⟩ := ih he
      exact ⟨e' :: before, after, v, v', rfl, .answer hx h₁, h₂, h₃⟩
  | others ho _ ih =>
    obtain ⟨before, after, v, v', heq, h₁, h₂, h₃⟩ := ih he
    exact ⟨before, after, v, v', heq, .others ho h₁, h₂, h₃⟩

/-- While the first answers are given and then the others. -/
theorem append (h : w.Serves Others who es w') (h' : w'.Serves Others who es' w'') :
    w.Serves Others who (es ++ es') w'' := by
  induction h with
  | nil => exact h'
  | answer hx _ ih => exact .answer hx (ih h')
  | others ho _ ih => exact .others ho (ih h')

/-- Whoever is served after some deeds of others is served from before them. -/
theorem of_goes {Others : World → World → Prop} (ho : ∀ {v v'}, v.Moves v' → Others v v') {p p' : Pool} {ds : List Deed}
    (hgoes : p.Goes ds p') (h : p'.world.Serves Others who es w'') : p.world.Serves Others who es w'' := by
  induction hgoes with
  | refl => exact h
  | step hs _ ih => exact .others (ho ⟨_, _, _, hs, rfl, rfl⟩) (ih h)

end Serves

end World

/-- What a task goes through is a run of it, and the machine serves it. -/
theorem Task.Through.served {α : Type} {who : TaskId} {k : α → Task Outcome} {t : Task α} {s s' : Site} {a : α}
    (h : t.Through who k s a s') : ∃ es, t.Ends es a ∧ s.world.Serves World.Moves who es s'.world := by
  induction h with
  | ret a s => exact ⟨[], .ret a, .nil _⟩
  | @answer r next s s' x w' a hx _ ih =>
    obtain ⟨es, hends, hserves⟩ := ih
    exact ⟨⟨r, x⟩ :: es, .request x hends, .answer (e := ⟨r, x⟩) hx hserves⟩
  | wait hx hothers _ ih =>
    obtain ⟨es, hends, hserves⟩ := ih
    exact ⟨es, hends, .others (.wait hx) (.of_goes id hothers hserves)⟩

/-- The exchanges of a task in one turn. -/
def Task.exchanges {α : Type} (who : TaskId) : (fuel : Nat) → Task α → World → List Exchange
  | 0, _, _ => []
  | _ + 1, .ret _, _ => []
  | _ + 1, .exhausted, _ => []
  | fuel + 1, .request r next, w =>
    match w.perform who r with
    | (some x, w') => ⟨r, x⟩ :: (next x).exchanges who fuel w'
    | (none, _) => []

/-- A turn in which a task ends is a run of it that the machine serves while nobody else moves. -/
theorem Task.served_of_turn {t : Task Outcome} {who : TaskId} {fuel : Nat} {w w' : World} {o : Outcome} {moved moved' : Bool}
    (Others : World → World → Prop) (h : t.run who fuel moved w = (.ended o, moved', w')) :
    t.Ends (t.exchanges who fuel w) o ∧ w.Serves Others who (t.exchanges who fuel w) w' := by
  induction fuel generalizing t moved w with
  | zero => cases h
  | succ fuel ih =>
    cases t with
    | ret o' =>
      cases h
      exact ⟨.ret _, .nil _⟩
    | exhausted => cases h
    | request r next =>
      unfold Task.run at h
      unfold Task.exchanges
      rcases hx : w.perform who r with ⟨x, w₁⟩
      rw [hx] at h
      cases x with
      | some x =>
        obtain ⟨hends, hserves⟩ := ih h
        exact ⟨.request x hends, .answer (e := ⟨r, x⟩) hx hserves⟩
      | none => cases h

end DualShell
