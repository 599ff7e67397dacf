import DualShell.Eval.Run
import DualShell.Proofs.Flow.Ends

/-!
# How loops end

A loop asks again and again whether there is one more round, and what about, and runs its body. How it ends is told by
`Loop`: `break` and `continue` that its body raised are news for the loop, any other failure of the body leaves the loop
as it is, and so does every failure of the question. The loops of the evaluator end so and not otherwise: over a
condition (`Evaluator.whileRounds_ends`), over the items of a container (`Evaluator.forItems_ends`) and over inputs
(`Inputs.visit_ends`).
-/

namespace DualShell

open Eval

/-- The failure is `break` or `continue`. -/
def Exception.IsLoopSignal (ex : Exception) : Prop := ex.flow? = some .break_ ∨ ex.flow? = some .continue_

/-- The body of a loop ended so that the loop goes on. -/
inductive GoesOn : Outcome → Prop
  | ok : GoesOn (.ok ())
  | next {ex : Exception} (h : ex.flow? = some .continue_) : GoesOn (.error ex)

/-- The body of a loop raised `break`. -/
def Breaks (o : Outcome) : Prop := ∃ ex, o = .error ex ∧ ex.flow? = some .break_

/-- What lets a loop go on does not break it. -/
theorem GoesOn.not_breaks {o : Outcome} (h : GoesOn o) : ¬Breaks o := by
  rintro ⟨ex, rfl, hbreak⟩
  cases h with
  | next hnext => cases hbreak.symm.trans hnext

section

variable {σ ι : Type}

/-- How a loop ends that asks `more` for each round, after it began so many rounds. -/
inductive Loop (more : σ → Eval (Option (ι × σ))) (body : ι → Eval Unit) : Nat → σ → List Exchange → Outcome → Prop
  /-- There is no further round. -/
  | finished {s es} (h : (more s).Ends es (.ok none)) : Loop more body 0 s es (.ok ())
  /-- Whatever the question raised leaves the loop. -/
  | failed {s es ex} (h : (more s).Ends es (.error ex)) : Loop more body 0 s es (.error ex)
  | next {n s i s' es₁ es₂ es₃ o r} (h : (more s).Ends es₁ (.ok (some (i, s')))) (hbody : (body i).Ends es₂ o)
      (ho : GoesOn o) (hrest : Loop more body n s' es₃ r) : Loop more body (n + 1) s (es₁ ++ (es₂ ++ es₃)) r
  /-- The body raised `break`. -/
  | stopped {s i s' es₁ es₂ ex} (h : (more s).Ends es₁ (.ok (some (i, s')))) (hbody : (body i).Ends es₂ (.error ex))
      (hex : ex.flow? = some .break_) : Loop more body 1 s (es₁ ++ es₂) (.ok ())
  /-- Whatever else the body raised leaves the loop. -/
  | left {s i s' es₁ es₂ ex} (h : (more s).Ends es₁ (.ok (some (i, s')))) (hbody : (body i).Ends es₂ (.error ex))
      (hex : ¬ex.IsLoopSignal) : Loop more body 1 s (es₁ ++ es₂) (.error ex)

/-- A loop that ends in a signal for loops did not get it from its body: the question for one more round raised it. -/
theorem Loop.signal {more : σ → Eval (Option (ι × σ))} {body : ι → Eval Unit} {n : Nat} {s : σ} {es : List Exchange}
    {ex : Exception} (h : Loop more body n s es (.error ex)) (hex : ex.IsLoopSignal) :
    ∃ s' es₁ es₂, es = es₁ ++ es₂ ∧ (more s').Ends es₂ (.error ex) := by
  generalize hr : (.error ex : Outcome) = r at h
  induction h with
  | finished | stopped => cases hr
  | failed h =>
    cases hr
    exact ⟨_, [], _, rfl, h⟩
  | @next n s i s' es₁ es₂ es₃ o r h hbody ho hrest ih =>
    obtain ⟨s'', es₄, es₅, rfl, hraised⟩ := ih hr
    exact ⟨s'', es₁ ++ (es₂ ++ es₄), es₅, by simp, hraised⟩
  | left h hbody hleft =>
    cases hr
    exact absurd hex hleft

end

/-! ## Rounds -/

/-- A round is followed by the next if the body ended well or with `continue`. -/
theorem loopStep_ok_next {o : Outcome} : loopStep o = .ok .next ↔ GoesOn o := by
  constructor
  · intro h
    cases o with
    | ok => exact .ok
    | error ex =>
      simp only [loopStep] at h
      split at h
      · cases h
      · exact .next ‹_›
      · cases h
  · rintro (_ | h)
    · rfl
    · simp [loopStep, h]

/-- A round is the last if the body ended with `break`. -/
theorem loopStep_ok_stop {o : Outcome} : loopStep o = .ok .stop ↔ Breaks o := by
  constructor
  · intro h
    cases o with
    | ok => cases h
    | error ex =>
      simp only [loopStep] at h
      split at h
      · exact ⟨ex, rfl, ‹_›⟩
      · cases h
      · cases h
  · rintro ⟨ex, rfl, h⟩
    simp [loopStep, h]

/-- Any other failure of the body is one of the round. -/
theorem loopStep_error {o : Outcome} {ex : Exception} : loopStep o = .error ex ↔ o = .error ex ∧ ¬ex.IsLoopSignal := by
  constructor
  · intro h
    cases o with
    | ok => cases h
    | error e =>
      simp only [loopStep] at h
      split at h
      · cases h
      · cases h
      · rename_i hbreak hcontinue
        cases h
        exact ⟨rfl, fun hex => hex.elim hbreak hcontinue⟩
  · rintro ⟨rfl, h⟩
    simp only [loopStep]
    split
    · exact absurd (.inl ‹_›) h
    · exact absurd (.inr ‹_›) h
    · rfl

/-- What the end of a body means for its loop. -/
theorem loopStep_cases (o : Outcome) : (GoesOn o ∧ loopStep o = .ok .next) ∨ (Breaks o ∧ loopStep o = .ok .stop) ∨
    ∃ ex, o = .error ex ∧ ¬ex.IsLoopSignal ∧ loopStep o = .error ex := by
  cases hstep : loopStep o with
  | ok step =>
    cases step with
    | next => exact .inl ⟨loopStep_ok_next.1 hstep, rfl⟩
    | stop => exact .inr (.inl ⟨loopStep_ok_stop.1 hstep, rfl⟩)
  | error ex =>
    obtain ⟨ho, hex⟩ := loopStep_error.1 hstep
    exact .inr (.inr ⟨ex, ho, hex, rfl⟩)

/-- An outcome with which a loop neither goes on nor stops is a failure that leaves it. -/
theorem leaves_iff {o : Outcome} : (¬GoesOn o ∧ ¬Breaks o) ↔ ∃ ex, o = .error ex ∧ ¬ex.IsLoopSignal := by
  constructor
  · rintro ⟨hgoes, hbreaks⟩
    obtain ⟨h, -⟩ | ⟨h, -⟩ | ⟨ex, ho, hex, -⟩ := loopStep_cases o
    · exact absurd h hgoes
    · exact absurd h hbreaks
    · exact ⟨ex, ho, hex⟩
  · rintro ⟨ex, rfl, hex⟩
    have hstep : loopStep (.error ex) = .error ex := loopStep_error.2 ⟨rfl, hex⟩
    refine ⟨fun h => ?_, fun h => ?_⟩
    · cases (loopStep_ok_next.2 h).symm.trans hstep
    · cases (loopStep_ok_stop.2 h).symm.trans hstep

/-- A round ends in what the end of its body means for the loop. -/
theorem Eval.ends_round {body : Eval Unit} {es : List Exchange} {r : Except Exception LoopStep} :
    (round body).Ends es r ↔ ∃ o, body.Ends es o ∧ r = loopStep o := by
  unfold round
  rw [ends_attempt_bind]
  constructor
  · rintro ⟨es₁, es₂, o, rfl, hbody, h⟩
    cases hstep : loopStep o with
    | ok step =>
      rw [hstep] at h
      obtain ⟨rfl, rfl⟩ := ends_pure.1 h
      exact ⟨o, by rwa [List.append_nil], hstep.symm⟩
    | error ex =>
      rw [hstep] at h
      obtain ⟨rfl, rfl⟩ := ends_throw.1 h
      exact ⟨o, by rwa [List.append_nil], hstep.symm⟩
  · rintro ⟨o, hbody, rfl⟩
    refine ⟨es, [], o, (List.append_nil es).symm, hbody, ?_⟩
    cases loopStep o with
    | ok step => exact ends_pure.2 ⟨rfl, rfl⟩
    | error ex => exact ends_throw.2 ⟨rfl, rfl⟩

/-- What comes after a round: the loop goes on, or stops, or the failure of the body leaves it. -/
theorem Eval.ends_round_bind {β : Type} {body : Eval Unit} {f : LoopStep → Eval β} {es : List Exchange}
    {r : Except Exception β} : (round body >>= f).Ends es r ↔ ∃ es₁ es₂ o, es = es₁ ++ es₂ ∧ body.Ends es₁ o ∧
      ((GoesOn o ∧ (f .next).Ends es₂ r) ∨ (Breaks o ∧ (f .stop).Ends es₂ r) ∨
        ∃ ex, o = .error ex ∧ ¬ex.IsLoopSignal ∧ es₂ = [] ∧ r = .error ex) := by
  rw [ends_bind]
  constructor
  · rintro (⟨ex, hround, rfl⟩ | ⟨es₁, es₂, step, rfl, hround, h⟩)
    · obtain ⟨o, hbody, ho⟩ := ends_round.1 hround
      obtain ⟨rfl, hex⟩ := loopStep_error.1 ho.symm
      exact ⟨es, [], _, (List.append_nil es).symm, hbody, .inr (.inr ⟨ex, rfl, hex, rfl, rfl⟩)⟩
    · obtain ⟨o, hbody, ho⟩ := ends_round.1 hround
      refine ⟨es₁, es₂, o, rfl, hbody, ?_⟩
      cases step with
      | next => exact .inl ⟨loopStep_ok_next.1 ho.symm, h⟩
      | stop => exact .inr (.inl ⟨loopStep_ok_stop.1 ho.symm, h⟩)
  · rintro ⟨es₁, es₂, o, rfl, hbody, ⟨ho, h⟩ | ⟨ho, h⟩ | ⟨ex, rfl, hex, rfl, rfl⟩⟩
    · exact .inr ⟨es₁, es₂, .next, rfl, ends_round.2 ⟨o, hbody, (loopStep_ok_next.2 ho).symm⟩, h⟩
    · exact .inr ⟨es₁, es₂, .stop, rfl, ends_round.2 ⟨o, hbody, (loopStep_ok_stop.2 ho).symm⟩, h⟩
    · rw [List.append_nil]
      exact .inl ⟨ex, ends_round.2 ⟨_, hbody, (loopStep_error.2 ⟨rfl, hex⟩).symm⟩, rfl⟩

/-! ## Loops over a condition -/

namespace Evaluator

variable (e : Evaluator)

/-- The question of a loop over a condition. -/
def holdsAgain (condition : Code.Operand) (ctx : Context) (_ : Unit) : Eval (Option (Unit × Unit)) := do
  if ← e.holds condition ctx then return some ((), ()) else return none

variable {e} {condition : Code.Operand} {body : Code.Block} {ctx : Context} {es : List Exchange}

/-- A condition that holds lets the loop go round again. -/
theorem ends_holdsAgain {r : Except Exception (Option (Unit × Unit))} :
    (e.holdsAgain condition ctx ()).Ends es r ↔
      ∃ b, (e.holds condition ctx).Ends es b ∧ r = b.map fun b => if b then some ((), ()) else none := by
  unfold holdsAgain
  rw [ends_bind]
  constructor
  · rintro (⟨ex, h, rfl⟩ | ⟨es₁, es₂, b, rfl, h, hr⟩)
    · exact ⟨.error ex, h, rfl⟩
    · cases b <;> obtain ⟨rfl, rfl⟩ := ends_pure.1 hr <;> exact ⟨_, by rwa [List.append_nil], rfl⟩
  · rintro ⟨b, h, rfl⟩
    cases b with
    | error ex => exact .inl ⟨ex, h, rfl⟩
    | ok b => exact .inr ⟨es, [], b, (List.append_nil es).symm, h, by cases b <;> exact ends_pure.2 ⟨rfl, rfl⟩⟩

/-- The rounds of a loop over a condition end as a loop does, and tell whether there was one. -/
theorem whileRounds_ends {rounds : Nat} {ran : Bool} {r : Except Exception Bool}
    (h : (e.whileRounds condition body ctx rounds ran).Ends es r) :
    ∃ n o, Loop (e.holdsAgain condition ctx) (fun _ => e.block body ctx) n () es o ∧ r = o.map fun _ => ran || n != 0 := by
  induction rounds generalizing ran es with
  | zero => exact absurd h not_ends_exhausted
  | succ rounds ih =>
    unfold whileRounds at h
    rcases ends_bind.1 h with ⟨ex, hholds, rfl⟩ | ⟨es₁, es₂, holds, rfl, hholds, h⟩
    · exact ⟨0, .error ex, .failed (ends_holdsAgain.2 ⟨_, hholds, rfl⟩), rfl⟩
    have hmore := ends_holdsAgain.2 ⟨_, hholds, rfl⟩
    cases holds with
    | false =>
      obtain ⟨rfl, rfl⟩ := ends_pure.1 h
      rw [List.append_nil]
      exact ⟨0, .ok (), .finished hmore, by simp [Except.map]⟩
    | true =>
      obtain ⟨es₂, es₃, o, rfl, hbody, ⟨ho, h⟩ | ⟨⟨ex, rfl, hex⟩, h⟩ | ⟨ex, rfl, hex, rfl, rfl⟩⟩ := ends_round_bind.1 h
      · obtain ⟨n, o', hrest, rfl⟩ := ih h
        refine ⟨n + 1, o', .next hmore hbody ho hrest, ?_⟩
        simp
      · obtain ⟨rfl, rfl⟩ := ends_pure.1 h
        rw [List.append_nil]
        exact ⟨1, .ok (), .stopped hmore hbody hex, by simp [Except.map]⟩
      · rw [List.append_nil]
        exact ⟨1, .error ex, .left hmore hbody hex, rfl⟩

/-- A loop over a condition with fewer rounds than its bound comes to its end. -/
theorem ends_whileRounds {n rounds : Nat} {o : Outcome}
    (h : Loop (e.holdsAgain condition ctx) (fun _ => e.block body ctx) n () es o) (hn : n < rounds) (ran : Bool) :
    (e.whileRounds condition body ctx rounds ran).Ends es (o.map fun _ => ran || n != 0) := by
  induction rounds generalizing n es ran with
  | zero => exact absurd hn (Nat.not_lt_zero n)
  | succ rounds ih =>
    have hholds : ∀ {es}, (e.holdsAgain condition ctx ()).Ends es (.ok (some ((), ()))) →
      (e.holds condition ctx).Ends es (.ok true) := by
      intro es hmore
      obtain ⟨b, hb, heq⟩ := ends_holdsAgain.1 hmore
      rcases b with ex | ⟨⟨⟩⟩
      · cases heq
      · cases heq
      · exact hb
    unfold whileRounds
    cases h with
    | finished hmore =>
      obtain ⟨b, hb, heq⟩ := ends_holdsAgain.1 hmore
      rcases b with ex | ⟨⟨⟩⟩
      · cases heq
      · exact hb.bind_last (ends_pure.2 ⟨rfl, by simp [Except.map]⟩)
      · cases heq
    | failed hmore =>
      obtain ⟨b, hb, heq⟩ := ends_holdsAgain.1 hmore
      rcases b with ex | b
      · cases heq
        exact hb.bind_error
      · cases heq
    | next hmore hbody ho hrest =>
      refine (hholds hmore).bind (ends_round_bind.2 ⟨_, _, _, rfl, hbody, .inl ⟨ho, ?_⟩⟩)
      have hlater := ih hrest (Nat.lt_of_succ_lt_succ hn) true
      simpa using hlater
    | stopped hmore hbody hex =>
      have hstop : (pure true : Eval Bool).Ends [] ((Except.ok ()).map fun _ => ran || 1 != 0) :=
        ends_pure.2 ⟨rfl, by simp [Except.map]⟩
      exact (hholds hmore).bind (ends_round_bind.2 ⟨_, _, _, (List.append_nil _).symm, hbody,
        .inr (.inl ⟨⟨_, rfl, hex⟩, hstop⟩)⟩)
    | left hmore hbody hex =>
      exact (hholds hmore).bind (ends_round_bind.2 ⟨_, _, _, (List.append_nil _).symm, hbody,
        .inr (.inr ⟨_, rfl, hex, rfl, rfl⟩)⟩)

end Evaluator

/-! ## Loops over items -/

/-- How a visit of items goes: the visitor fails, goes on to the others, or stops. -/
theorem ends_visitItems_cons {visit : Value → Eval LoopStep} {v : Value} {vs : List Value} {es : List Exchange}
    {r : Outcome} : (visitItems visit (v :: vs)).Ends es r ↔ (∃ ex, (visit v).Ends es (.error ex) ∧ r = .error ex) ∨
      (∃ es₁ es₂, es = es₁ ++ es₂ ∧ (visit v).Ends es₁ (.ok .next) ∧ (visitItems visit vs).Ends es₂ r) ∨
      ((visit v).Ends es (.ok .stop) ∧ r = .ok ()) := by
  refine ends_bind.trans (or_congr_right ⟨?_, ?_⟩)
  · rintro ⟨es₁, es₂, step, rfl, hvisit, h⟩
    cases step with
    | next => exact .inl ⟨es₁, es₂, rfl, hvisit, h⟩
    | stop =>
      obtain ⟨rfl, rfl⟩ := ends_pure.1 h
      exact .inr ⟨by rwa [List.append_nil], rfl⟩
  · rintro (⟨es₁, es₂, rfl, hvisit, h⟩ | ⟨hvisit, rfl⟩)
    · exact ⟨es₁, es₂, .next, rfl, hvisit, h⟩
    · exact ⟨es, [], .stop, (List.append_nil es).symm, hvisit, ends_pure.2 ⟨rfl, rfl⟩⟩

/-- How a visit of items in rounds goes: after the body for the first item, the visit goes on to the others, or stops,
or the failure of the body leaves it. -/
theorem ends_visitRounds_cons {act : Value → Eval Unit} {v : Value} {vs : List Value} {es : List Exchange} {r : Outcome} :
    (visitItems (fun v => round (act v)) (v :: vs)).Ends es r ↔ ∃ es₁ es₂ o, es = es₁ ++ es₂ ∧ (act v).Ends es₁ o ∧
      ((GoesOn o ∧ (visitItems (fun v => round (act v)) vs).Ends es₂ r) ∨ (Breaks o ∧ es₂ = [] ∧ r = .ok ()) ∨
        ∃ ex, o = .error ex ∧ ¬ex.IsLoopSignal ∧ es₂ = [] ∧ r = .error ex) := by
  rw [visitItems, ends_round_bind]
  simp only [ends_pure]

/-- The question of a loop over items, which gives the next one to a variable. -/
def Ref.writeNext (ctx : Context) (ref : Ref) : List Value → Eval (Option (Unit × List Value))
  | [] => pure none
  | v :: vs => do
    ref.write ctx v
    return some ((), vs)

/-- A variable is given the first of the items, and the others are left. -/
theorem Ref.ends_writeNext_cons {ctx : Context} {ref : Ref} {v : Value} {vs : List Value} {es : List Exchange}
    {r : Except Exception (Option (Unit × List Value))} :
    (ref.writeNext ctx (v :: vs)).Ends es r ↔ ∃ o, (ref.write ctx v).Ends es o ∧ r = o.map fun _ => some ((), vs) := by
  unfold Ref.writeNext
  rw [ends_bind]
  constructor
  · rintro (⟨ex, h, rfl⟩ | ⟨es₁, es₂, a, rfl, h, hr⟩)
    · exact ⟨.error ex, h, rfl⟩
    · obtain ⟨rfl, rfl⟩ := ends_pure.1 hr
      exact ⟨.ok a, by rwa [List.append_nil], rfl⟩
  · rintro ⟨o, h, rfl⟩
    cases o with
    | error ex => exact .inl ⟨ex, h, rfl⟩
    | ok a => exact .inr ⟨es, [], a, (List.append_nil es).symm, h, ends_pure.2 ⟨rfl, rfl⟩⟩

/-- Where an item was given, it was the first one. -/
theorem Ref.ends_writeNext_some {ctx : Context} {ref : Ref} {v : Value} {vs rest : List Value}
    {es : List Exchange} {i : Unit}
    (h : (ref.writeNext ctx (v :: vs)).Ends es (.ok (some (i, rest)))) : (ref.write ctx v).Ends es (.ok ()) ∧ rest = vs := by
  obtain ⟨o, hwrite, heq⟩ := ends_writeNext_cons.1 h
  cases o with
  | error ex => cases heq
  | ok a =>
    cases heq
    exact ⟨hwrite, rfl⟩

/-- A loop over items ends as a loop does, and not otherwise. -/
theorem Evaluator.forItems_ends {e : Evaluator} {ref : Ref} {body : Code.Block} {ctx : Context} {items : List Value}
    {es : List Exchange} {r : Outcome} :
    (e.forItems ref body ctx items).Ends es r ↔ ∃ n, Loop (ref.writeNext ctx) (fun _ => e.block body ctx) n items es r := by
  unfold Evaluator.forItems
  induction items generalizing es r with
  | nil =>
    constructor
    · intro h
      obtain ⟨rfl, rfl⟩ := ends_pure.1 h
      exact ⟨0, .finished (ends_pure.2 ⟨rfl, rfl⟩)⟩
    · rintro ⟨n, h⟩
      cases h with
      | finished h => exact ends_pure.2 ⟨(ends_pure.1 h).1, rfl⟩
      | failed h | next h | stopped h | left h => cases (ends_pure.1 h).2
  | cons v vs ih =>
    rw [visitItems, bind_assoc, ends_bind]
    constructor
    · rintro (⟨ex, hwrite, rfl⟩ | ⟨es₁, es₂, ⟨⟩, rfl, hwrite, h⟩)
      · exact ⟨0, .failed (Ref.ends_writeNext_cons.2 ⟨_, hwrite, rfl⟩)⟩
      · have hmore : (ref.writeNext ctx (v :: vs)).Ends es₁ (.ok (some ((), vs))) :=
          Ref.ends_writeNext_cons.2 ⟨_, hwrite, rfl⟩
        obtain ⟨es₂, es₃, o, rfl, hbody, ⟨ho, hrest⟩ | ⟨⟨ex, rfl, hex⟩, h⟩ | ⟨ex, rfl, hex, rfl, rfl⟩⟩ := ends_round_bind.1 h
        · obtain ⟨n, hloop⟩ := ih.1 hrest
          exact ⟨n + 1, .next hmore hbody ho hloop⟩
        · obtain ⟨rfl, rfl⟩ := ends_pure.1 h
          rw [List.append_nil]
          exact ⟨1, .stopped hmore hbody hex⟩
        · rw [List.append_nil]
          exact ⟨1, .left hmore hbody hex⟩
    · rintro ⟨n, h⟩
      cases h with
      | finished h =>
        obtain ⟨o, -, heq⟩ := Ref.ends_writeNext_cons.1 h
        cases o <;> cases heq
      | failed h =>
        obtain ⟨o, hwrite, heq⟩ := Ref.ends_writeNext_cons.1 h
        cases o <;> cases heq
        exact .inl ⟨_, hwrite, rfl⟩
      | next h hbody ho hrest =>
        obtain ⟨hwrite, rfl⟩ := Ref.ends_writeNext_some h
        exact .inr ⟨_, _, (), rfl, hwrite, ends_round_bind.2 ⟨_, _, _, rfl, hbody, .inl ⟨ho, ih.2 ⟨_, hrest⟩⟩⟩⟩
      | stopped h hbody hex =>
        obtain ⟨hwrite, rfl⟩ := Ref.ends_writeNext_some h
        have hstop : (pure () : Eval Unit).Ends [] (.ok ()) := ends_pure.2 ⟨rfl, rfl⟩
        exact .inr ⟨_, _, (), rfl, hwrite,
          ends_round_bind.2 ⟨_, _, _, (List.append_nil _).symm, hbody, .inr (.inl ⟨⟨_, rfl, hex⟩, hstop⟩)⟩⟩
      | left h hbody hex =>
        obtain ⟨hwrite, rfl⟩ := Ref.ends_writeNext_some h
        exact .inr ⟨_, _, (), rfl, hwrite,
          ends_round_bind.2 ⟨_, _, _, (List.append_nil _).symm, hbody, .inr (.inr ⟨_, rfl, hex, rfl, rfl⟩)⟩⟩

/-! ## Loops over inputs -/

/-- The question of a loop over inputs: the next of the items at hand, or the next item of the stream. -/
def Inputs.next (bound : Nat) : Inputs → Eval (Option (Value × Inputs))
  | .given [] => pure none
  | .given (v :: vs) => pure (some (v, .given vs))
  | .stream inlet m => do
    let (item, m) ← inlet.nextItem bound m
    return item.map fun v => (v, .stream inlet m)

section

variable {act : Value → Eval Unit} {bound : Nat} {inlet : Inlet} {m : Merging} {es : List Exchange} {r : Outcome}

/-- The next item of a stream is what comes next. -/
theorem Inputs.ends_next_stream {r : Except Exception (Option (Value × Inputs))} :
    (Inputs.next bound (.stream inlet m)).Ends es r ↔ ∃ x, (inlet.nextItem bound m).Ends es x ∧
      r = x.map fun x => x.1.map fun v => (v, .stream inlet x.2) := by
  refine ends_bind.trans ⟨?_, ?_⟩
  · rintro (⟨ex, h, rfl⟩ | ⟨es₁, es₂, x, rfl, h, hr⟩)
    · exact ⟨.error ex, h, rfl⟩
    · obtain ⟨rfl, rfl⟩ := ends_pure.1 hr
      exact ⟨.ok x, by rwa [List.append_nil], rfl⟩
  · rintro ⟨x, h, rfl⟩
    cases x with
    | error ex => exact .inl ⟨ex, h, rfl⟩
    | ok x => exact .inr ⟨es, [], x, (List.append_nil es).symm, h, ends_pure.2 ⟨rfl, rfl⟩⟩

/-- A loop over items at hand ends as a loop does, and not otherwise. -/
theorem visitItems_ends {items : List Value} :
    (visitItems (fun v => round (act v)) items).Ends es r ↔ ∃ n, Loop (Inputs.next bound) act n (.given items) es r := by
  induction items generalizing es with
  | nil =>
    constructor
    · intro h
      obtain ⟨rfl, rfl⟩ := ends_pure.1 h
      exact ⟨0, .finished (ends_pure.2 ⟨rfl, rfl⟩)⟩
    · rintro ⟨n, h⟩
      cases h with
      | finished h => exact ends_pure.2 ⟨(ends_pure.1 h).1, rfl⟩
      | failed h | next h | stopped h | left h => cases (ends_pure.1 h).2
  | cons v vs ih =>
    have hnext : (Inputs.next bound (.given (v :: vs))).Ends [] (.ok (some (v, .given vs))) := ends_pure.2 ⟨rfl, rfl⟩
    rw [ends_visitRounds_cons]
    constructor
    · rintro ⟨es₁, es₂, o, rfl, hbody, ⟨ho, hrest⟩ | ⟨⟨ex, rfl, hex⟩, rfl, rfl⟩ | ⟨ex, rfl, hex, rfl, rfl⟩⟩
      · obtain ⟨n, hloop⟩ := ih.1 hrest
        exact ⟨n + 1, .next hnext hbody ho hloop⟩
      · rw [List.append_nil]
        exact ⟨1, .stopped hnext hbody hex⟩
      · rw [List.append_nil]
        exact ⟨1, .left hnext hbody hex⟩
    · rintro ⟨n, h⟩
      cases h with
      | finished h | failed h => cases (ends_pure.1 h).2
      | next h hbody ho hrest =>
        obtain ⟨rfl, heq⟩ := ends_pure.1 h
        cases heq
        exact ⟨_, _, _, List.nil_append _, hbody, .inl ⟨ho, ih.2 ⟨_, hrest⟩⟩⟩
      | stopped h hbody hex =>
        obtain ⟨rfl, heq⟩ := ends_pure.1 h
        cases heq
        exact ⟨_, [], _, (List.append_nil _).symm, hbody, .inr (.inl ⟨⟨_, rfl, hex⟩, rfl, rfl⟩)⟩
      | left h hbody hex =>
        obtain ⟨rfl, heq⟩ := ends_pure.1 h
        cases heq
        exact ⟨_, [], _, (List.append_nil _).symm, hbody, .inr (.inr ⟨_, rfl, hex, rfl, rfl⟩)⟩

/-- A loop over a stream ends as a loop does. -/
theorem visitStream_ends {rounds : Nat} (h : (visitStream bound (fun v => round (act v)) inlet rounds m).Ends es r) :
    ∃ n, Loop (Inputs.next bound) act n (.stream inlet m) es r := by
  induction rounds generalizing m es with
  | zero => exact absurd h not_ends_exhausted
  | succ rounds ih =>
    unfold visitStream at h
    rcases ends_bind.1 h with ⟨ex, hitem, rfl⟩ | ⟨es₁, es₂, ⟨item, m'⟩, rfl, hitem, h⟩
    · exact ⟨0, .failed (Inputs.ends_next_stream.2 ⟨_, hitem, rfl⟩)⟩
    have hnext := Inputs.ends_next_stream.2 ⟨_, hitem, rfl⟩
    cases item with
    | none =>
      obtain ⟨rfl, rfl⟩ := ends_pure.1 h
      rw [List.append_nil]
      exact ⟨0, .finished hnext⟩
    | some v =>
      obtain ⟨es₂, es₃, o, rfl, hbody, ⟨ho, h⟩ | ⟨⟨ex, rfl, hex⟩, h⟩ | ⟨ex, rfl, hex, rfl, rfl⟩⟩ := ends_round_bind.1 h
      · obtain ⟨n, hrest⟩ := ih h
        exact ⟨n + 1, .next hnext hbody ho hrest⟩
      · obtain ⟨rfl, rfl⟩ := ends_pure.1 h
        rw [List.append_nil]
        exact ⟨1, .stopped hnext hbody hex⟩
      · rw [List.append_nil]
        exact ⟨1, .left hnext hbody hex⟩

/-- An item of a stream is followed by the rest of the stream. -/
theorem Inputs.ends_nextItem {v : Value} {rest : Inputs}
    (h : (Inputs.next bound (.stream inlet m)).Ends es (.ok (some (v, rest)))) :
    ∃ m', (inlet.nextItem bound m).Ends es (.ok (some v, m')) ∧ rest = .stream inlet m' := by
  obtain ⟨x, hitem, heq⟩ := ends_next_stream.1 h
  rcases x with ex | ⟨_ | item, m'⟩
  · cases heq
  · cases heq
  · cases heq
    exact ⟨m', hitem, rfl⟩

/-- A loop over a stream with fewer rounds than its bound comes to its end. -/
theorem ends_visitStream {n rounds : Nat} (h : Loop (Inputs.next bound) act n (.stream inlet m) es r) (hn : n < rounds) :
    (visitStream bound (fun v => round (act v)) inlet rounds m).Ends es r := by
  induction rounds generalizing n m es with
  | zero => exact absurd hn (Nat.not_lt_zero n)
  | succ rounds ih =>
    unfold visitStream
    cases h with
    | finished h =>
      obtain ⟨x, hitem, heq⟩ := Inputs.ends_next_stream.1 h
      rcases x with ex | ⟨_ | item, m'⟩
      · cases heq
      · exact hitem.bind_last (ends_pure.2 ⟨rfl, rfl⟩)
      · cases heq
    | failed h =>
      obtain ⟨x, hitem, heq⟩ := Inputs.ends_next_stream.1 h
      cases x with
      | error ex =>
        cases heq
        exact hitem.bind_error
      | ok x => cases heq
    | next h hbody ho hrest =>
      obtain ⟨m', hitem, rfl⟩ := Inputs.ends_nextItem h
      exact hitem.bind (ends_round_bind.2 ⟨_, _, _, rfl, hbody, .inl ⟨ho, ih hrest (Nat.lt_of_succ_lt_succ hn)⟩⟩)
    | stopped h hbody hex =>
      obtain ⟨m', hitem, rfl⟩ := Inputs.ends_nextItem h
      have hstop : (pure () : Eval Unit).Ends [] (.ok ()) := ends_pure.2 ⟨rfl, rfl⟩
      exact hitem.bind (ends_round_bind.2 ⟨_, _, _, (List.append_nil _).symm, hbody, .inr (.inl ⟨⟨_, rfl, hex⟩, hstop⟩)⟩)
    | left h hbody hex =>
      obtain ⟨m', hitem, rfl⟩ := Inputs.ends_nextItem h
      exact hitem.bind (ends_round_bind.2 ⟨_, _, _, (List.append_nil _).symm, hbody, .inr (.inr ⟨_, rfl, hex, rfl, rfl⟩)⟩)

/-- A loop over inputs ends as a loop does. -/
theorem Inputs.visit_ends {inputs : Inputs} (h : (inputs.visit bound fun v => round (act v)).Ends es r) :
    ∃ n, Loop (Inputs.next bound) act n inputs es r := by
  cases inputs with
  | given items => exact visitItems_ends.1 h
  | stream inlet m => exact visitStream_ends h

/-- A loop over inputs with fewer rounds than its bound comes to its end. -/
theorem Inputs.ends_visit {inputs : Inputs} {n : Nat} (h : Loop (Inputs.next bound) act n inputs es r) (hn : n < bound) :
    (inputs.visit bound fun v => round (act v)).Ends es r := by
  cases inputs with
  | given items => exact visitItems_ends.2 ⟨n, h⟩
  | stream inlet m => exact ends_visitStream h hn

end

/-! ## Forms of loops -/

/-- How a loop with a part for the case that there was no round ends. -/
inductive LoopForm (loop : Nat → List Exchange → Outcome → Prop) (otherwise : Eval Unit) : List Exchange → Outcome → Prop
  | ran {n : Nat} {es : List Exchange} {r : Outcome} (h : loop n es r) (hr : n ≠ 0 ∨ r ≠ .ok ()) :
      LoopForm loop otherwise es r
  | never {es₁ es₂ : List Exchange} {r : Outcome} (h : loop 0 es₁ (.ok ())) (ho : otherwise.Ends es₂ r) :
      LoopForm loop otherwise (es₁ ++ es₂) r

namespace Evaluator

variable {e : Evaluator} {ctx : Context} {es : List Exchange} {condition container : Code.Operand} {ref : Ref}
    {body : Code.Block} {otherwise : Option Code.Block} {r : Outcome}

/-- A loop over a condition. -/
theorem whileLoop_ends (h : (e.evalSpecial (.whileLoop condition body otherwise) ctx).Ends es r) :
    LoopForm (fun n => Loop (e.holdsAgain condition ctx) (fun _ => e.block body ctx) n ()) (e.optional otherwise ctx) es
    r := by
  rcases ends_bind.1 h with ⟨ex, hrounds, rfl⟩ | ⟨es₁, es₂, ran, rfl, hrounds, h⟩
  · obtain ⟨n, o, hloop, heq⟩ := whileRounds_ends hrounds
    rcases o with ex | ⟨⟩
    · cases heq
      exact .ran hloop (.inr (by simp))
    · cases heq
  · obtain ⟨n, o, hloop, heq⟩ := whileRounds_ends hrounds
    rcases o with ex | ⟨⟩
    · cases heq
    · simp only [Except.map, Bool.false_or, Except.ok.injEq] at heq
      subst heq
      by_cases hn : n = 0
      · subst hn
        exact .never hloop h
      · rw [if_pos (by simpa using hn)] at h
        obtain ⟨rfl, rfl⟩ := ends_pure.1 h
        rw [List.append_nil]
        exact .ran hloop (.inl hn)

/-- A loop over a condition with fewer rounds than the bound comes to its end. -/
theorem ends_whileLoop
    (h : LoopForm (fun n es r => n < e.bound ∧ Loop (e.holdsAgain condition ctx) (fun _ => e.block body ctx) n () es r)
    (e.optional otherwise ctx) es r) : (e.evalSpecial (.whileLoop condition body otherwise) ctx).Ends es r := by
  cases h with
  | @ran n es r h hr =>
    have hrounds := ends_whileRounds h.2 h.1 false
    rcases r with ex | ⟨⟩
    · exact hrounds.bind_error
    · refine hrounds.bind_last ?_
      rw [if_pos (by simpa using hr)]
      exact ends_pure.2 ⟨rfl, rfl⟩
  | never h ho => exact (ends_whileRounds h.2 h.1 false).bind ho

/-- Without items there is no round. -/
theorem loop_writeNext_nil {act : Unit → Eval Unit} {n : Nat} (h : Loop (ref.writeNext ctx) act n [] es r) :
    n = 0 ∧ es = [] ∧ r = .ok () := by
  cases h with
  | finished h => exact ⟨rfl, (ends_pure.1 h).1, rfl⟩
  | failed h | next h | stopped h | left h => cases (ends_pure.1 h).2

/-- With items there is a round, unless the variable cannot be written. -/
theorem loop_writeNext_cons {act : Unit → Eval Unit} {n : Nat} {v : Value} {vs : List Value}
    (h : Loop (ref.writeNext ctx) act n (v :: vs) es r) : n ≠ 0 ∨ r ≠ .ok () := by
  cases h with
  | finished h =>
    obtain ⟨o, -, heq⟩ := Ref.ends_writeNext_cons.1 h
    cases o <;> cases heq
  | failed h => exact .inr (by simp)
  | next | stopped | left => exact .inl (Nat.succ_ne_zero _)

/-- A loop over items is the part for no items if there are none. -/
theorem ends_forItems_or {items : List Value} :
    (if items.isEmpty then e.optional otherwise ctx else e.forItems ref body ctx items).Ends es r ↔
      LoopForm (fun n => Loop (ref.writeNext ctx) (fun _ => e.block body ctx) n items) (e.optional otherwise ctx) es r := by
  cases items with
  | nil =>
    rw [List.isEmpty_nil, if_pos rfl]
    constructor
    · intro h
      have hfinished : Loop (ref.writeNext ctx) (fun _ => e.block body ctx) 0 [] [] (.ok ()) :=
        .finished (ends_pure.2 ⟨rfl, rfl⟩)
      rw [← List.nil_append es]
      exact .never hfinished h
    · intro h
      cases h with
      | ran h hr =>
        obtain ⟨rfl, -, rfl⟩ := loop_writeNext_nil h
        simp at hr
      | never h ho =>
        obtain ⟨-, rfl, -⟩ := loop_writeNext_nil h
        exact ho
  | cons v vs =>
    rw [List.isEmpty_cons, if_neg Bool.false_ne_true, forItems_ends]
    constructor
    · rintro ⟨n, h⟩
      exact .ran h (loop_writeNext_cons h)
    · intro h
      cases h with
      | ran h hr => exact ⟨_, h⟩
      | never h ho => simpa using loop_writeNext_cons h

/-- A loop over the items of a container. -/
theorem ends_forLoop : (e.evalSpecial (.forLoop ref container body otherwise) ctx).Ends es r ↔
    (∃ ex, (e.single container ctx "for container").Ends es (.error ex) ∧ r = .error ex) ∨
    ∃ es₁ es₂ v, es = es₁ ++ es₂ ∧ (e.single container ctx "for container").Ends es₁ (.ok v) ∧
      ((∃ c, v.iterate = .error c ∧ es₂ = [] ∧ r = .error (.ofCause c)) ∨ ∃ items, v.iterate = .ok items ∧
        LoopForm (fun n => Loop (ref.writeNext ctx) (fun _ => e.block body ctx) n items) (e.optional otherwise ctx)
        es₂ r) := by
  refine ends_bind.trans (or_congr_right (exists_congr fun es₁ => exists_congr fun es₂ => exists_congr fun v => ?_))
  refine and_congr_right fun _ => and_congr_right fun _ => ends_ofExcept_bind.trans (or_congr_right ?_)
  exact exists_congr fun items => and_congr_right fun _ => ends_forItems_or

/-- A loop over inputs that calls a function with each. -/
theorem each_ends {args : Arguments} (h : (e.runBuiltin .each args ctx).Ends es r) :
    (∃ ex, (Inputs.of args.positional[1]? ctx).Ends es (.error ex) ∧ r = .error ex) ∨
    ∃ es₁ es₂ inputs n, es = es₁ ++ es₂ ∧ (Inputs.of args.positional[1]? ctx).Ends es₁ (.ok inputs) ∧
      Loop (Inputs.next e.bound) (fun v => e.call (args.positional.head?.getD .empty) [v] [] ctx) n inputs es₂ r := by
  refine (ends_bind.1 h).imp_right ?_
  rintro ⟨es₁, es₂, inputs, rfl, hinputs, hvisit⟩
  obtain ⟨n, hloop⟩ := Inputs.visit_ends hvisit
  exact ⟨es₁, es₂, inputs, n, rfl, hinputs, hloop⟩

/-- It comes to its end with fewer rounds than the bound. -/
theorem ends_each {args : Arguments} {es₁ es₂ : List Exchange} {inputs : Inputs} {n : Nat}
    (hinputs : (Inputs.of args.positional[1]? ctx).Ends es₁ (.ok inputs))
    (h : Loop (Inputs.next e.bound) (fun v => e.call (args.positional.head?.getD .empty) [v] [] ctx) n inputs es₂ r)
    (hn : n < e.bound) : (e.runBuiltin .each args ctx).Ends (es₁ ++ es₂) r :=
  hinputs.bind (Inputs.ends_visit h hn)

end Evaluator

end DualShell
