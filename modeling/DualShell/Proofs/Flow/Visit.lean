import DualShell.Proofs.Flow.Assignment
import DualShell.Proofs.Flow.Boundary

/-!
# Loops visit the first of their items

The items of a loop are those of a value that is there before the first visit. They are visited in order, and only the
last visit can be one that ends the loop (`Visits`). This is exactly how the loops over items end, for every body, and
how their other parts come in (`loops_lawful`): the part for the case that there are no items, the condition of a loop
over a condition, and the variable, which holds the item when the body starts (`Evaluator.ForRounds`).
-/

namespace DualShell

open Eval Compile

/-! ## Visits -/

/-- A run of the body of a loop: for an item, with the requests it made and the answers it got. -/
structure Visit where
  item : Value
  exchanges : List Exchange
  outcome : Outcome

/-- The visits of a loop that acts on items, and how the loop comes out. -/
structure Visits (act : Value → Eval Unit) (items : List Value) (visits : List Visit) (r : Outcome) : Prop where
  /-- The items are taken in order, each once. -/
  order : visits.map (·.item) <+: items
  ran : ∀ t ∈ visits, (act t.item).Ends t.exchanges t.outcome
  /-- Up to the last visit the loop goes on. -/
  goesOn : ∀ t ∈ visits.dropLast, GoesOn t.outcome
  /-- It ends after all items, or with a visit that ends it. -/
  ends : (visits.map (·.item) = items ∧ (∀ t ∈ visits, GoesOn t.outcome) ∧ r = .ok ()) ∨
    ∃ t, visits.getLast? = some t ∧
    ((Breaks t.outcome ∧ r = .ok ()) ∨ (¬GoesOn t.outcome ∧ ¬Breaks t.outcome ∧ r = t.outcome))

section

variable {act : Value → Eval Unit} {v : Value} {items vs : List Value} {visits : List Visit} {es : List Exchange}
    {r : Outcome}

/-- No items, no visits. -/
theorem visits_nil : Visits act [] visits r ↔ visits = [] ∧ r = .ok () := by
  constructor
  · intro h
    obtain rfl : visits = [] := List.map_eq_nil_iff.1 (List.prefix_nil.1 h.order)
    obtain ⟨-, -, hr⟩ | ⟨t, ht, -⟩ := h.ends
    · exact ⟨rfl, hr⟩
    · nomatch ht
  · rintro ⟨rfl, rfl⟩
    exact ⟨List.prefix_rfl, List.forall_mem_nil _, List.forall_mem_nil _, .inl ⟨rfl, List.forall_mem_nil _, rfl⟩⟩

/-- The first visit is to the first item, and ends the loop or is followed by the others. -/
theorem visits_cons : Visits act (v :: vs) visits r ↔ ∃ t rest, visits = t :: rest ∧ t.item = v ∧
    (act v).Ends t.exchanges t.outcome ∧
    ((GoesOn t.outcome ∧ Visits act vs rest r) ∨ (Breaks t.outcome ∧ rest = [] ∧ r = .ok ()) ∨
      (¬GoesOn t.outcome ∧ ¬Breaks t.outcome ∧ rest = [] ∧ r = t.outcome)) := by
  constructor
  · intro h
    cases visits with
    | nil =>
      obtain ⟨hall, -⟩ | ⟨t, ht, -⟩ := h.ends
      · nomatch hall
      · nomatch ht
    | cons t rest =>
      obtain ⟨rfl, horder⟩ := List.cons_prefix_cons.1 h.order
      obtain ⟨hran, hrest⟩ := List.forall_mem_cons.1 h.ran
      refine ⟨t, rest, rfl, rfl, hran, ?_⟩
      cases rest with
      | nil =>
        obtain ⟨hall, hgoes, rfl⟩ | ⟨u, hu, hends⟩ := h.ends
        · obtain rfl : vs = [] := (List.cons.inj hall).2.symm
          exact .inl ⟨hgoes t (List.mem_singleton_self _), visits_nil.2 ⟨rfl, rfl⟩⟩
        · cases hu
          exact .inr (hends.imp (fun h => ⟨h.1, rfl, h.2⟩) fun h => ⟨h.1, h.2.1, rfl, h.2.2⟩)
      | cons u rest =>
        obtain ⟨ht, hgoes⟩ := List.forall_mem_cons.1 h.goesOn
        refine .inl ⟨ht, horder, hrest, hgoes,
          h.ends.imp (fun h => ⟨(List.cons.inj h.1).2, (List.forall_mem_cons.1 h.2.1).2, h.2.2⟩) ?_⟩
        rintro ⟨u', hu', hends⟩
        exact ⟨u', by simpa using hu', hends⟩
  · rintro ⟨t, rest, rfl, rfl, hran, ⟨ht, h⟩ | ⟨ht, rfl, rfl⟩ | ⟨ht, ht', rfl, rfl⟩⟩
    · refine ⟨List.cons_prefix_cons.2 ⟨rfl, h.order⟩, List.forall_mem_cons.2 ⟨hran, h.ran⟩, fun u hu => ?_,
        h.ends.imp (fun h => ⟨congrArg _ h.1, List.forall_mem_cons.2 ⟨ht, h.2.1⟩, h.2.2⟩) fun ⟨u, hu, hends⟩ =>
        ⟨u, ?_, hends⟩⟩
      · cases rest with
        | nil => nomatch hu
        | cons u' rest =>
          have hgoes : ∀ x ∈ t :: (u' :: rest).dropLast, GoesOn x.outcome := List.forall_mem_cons.2 ⟨ht, h.goesOn⟩
          exact hgoes u hu
      · rw [List.getLast?_cons, hu]
        rfl
    · exact ⟨List.cons_prefix_cons.2 ⟨rfl, List.nil_prefix⟩, List.forall_mem_singleton.2 hran, List.forall_mem_nil _,
        .inr ⟨t, rfl, .inl ⟨ht, rfl⟩⟩⟩
    · exact ⟨List.cons_prefix_cons.2 ⟨rfl, List.nil_prefix⟩, List.forall_mem_singleton.2 hran, List.forall_mem_nil _,
        .inr ⟨t, rfl, .inr ⟨ht, ht', rfl⟩⟩⟩

/-- Items are visited so, and not otherwise. -/
theorem ends_visitItems : (visitItems (fun v => round (act v)) items).Ends es r ↔
    ∃ visits, Visits act items visits r ∧ es = visits.flatMap (·.exchanges) := by
  induction items generalizing es with
  | nil =>
    constructor
    · intro h
      obtain ⟨rfl, rfl⟩ := ends_pure.1 h
      exact ⟨[], visits_nil.2 ⟨rfl, rfl⟩, rfl⟩
    · rintro ⟨visits, h, rfl⟩
      obtain ⟨rfl, rfl⟩ := visits_nil.1 h
      exact ends_pure.2 ⟨rfl, rfl⟩
  | cons v vs ih =>
    rw [ends_visitRounds_cons]
    constructor
    · rintro ⟨es₁, es₂, o, rfl, hbody, ⟨ho, hrest⟩ | ⟨ho, rfl, rfl⟩ | ⟨ex, rfl, hex, rfl, rfl⟩⟩
      · obtain ⟨visits, hvisits, rfl⟩ := ih.1 hrest
        exact ⟨⟨v, es₁, o⟩ :: visits, visits_cons.2 ⟨_, _, rfl, rfl, hbody, .inl ⟨ho, hvisits⟩⟩, rfl⟩
      · exact ⟨[⟨v, es₁, o⟩], visits_cons.2 ⟨_, _, rfl, rfl, hbody, .inr (.inl ⟨ho, rfl, rfl⟩)⟩, rfl⟩
      · obtain ⟨hgoes, hbreaks⟩ := leaves_iff.2 ⟨ex, rfl, hex⟩
        exact ⟨[⟨v, es₁, _⟩], visits_cons.2 ⟨_, _, rfl, rfl, hbody, .inr (.inr ⟨hgoes, hbreaks, rfl, rfl⟩)⟩, rfl⟩
    · rintro ⟨visits, h, rfl⟩
      obtain ⟨t, rest, rfl, rfl, hbody, ⟨ho, hvisits⟩ | ⟨ho, rfl, rfl⟩ | ⟨hgoes, hbreaks, rfl, rfl⟩⟩ := visits_cons.1 h
      · exact ⟨_, _, _, rfl, hbody, .inl ⟨ho, ih.2 ⟨rest, hvisits, rfl⟩⟩⟩
      · exact ⟨_, _, _, rfl, hbody, .inr (.inl ⟨ho, rfl, rfl⟩)⟩
      · obtain ⟨ex, ho, hex⟩ := leaves_iff.1 ⟨hgoes, hbreaks⟩
        exact ⟨_, _, _, rfl, hbody, .inr (.inr ⟨ex, ho, hex, rfl, ho⟩)⟩

/-- Visitors that end alike make visits that end alike. -/
theorem ends_visitItems_congr {f g : Value → Eval LoopStep} (h : ∀ v es x, (f v).Ends es x ↔ (g v).Ends es x) :
    (visitItems f items).Ends es r ↔ (visitItems g items).Ends es r := by
  induction items generalizing es with
  | nil => rfl
  | cons v vs ih => simp only [ends_visitItems_cons, h, ih]

/-- To raise no signal before a round is to raise none in it. -/
theorem ends_round_after {x body : Eval Unit} (hx : x.Flowless) {o : Except Exception LoopStep} :
    (x >>= fun _ => round body).Ends es o ↔ (round (x >>= fun _ => body)).Ends es o := by
  rw [ends_round, ends_bind]
  constructor
  · rintro (⟨ex, h, rfl⟩ | ⟨es₁, es₂, ⟨⟩, rfl, h, hround⟩)
    · have hsignal : ¬ex.IsLoopSignal := fun hsignal => hx.not_isFlow h hsignal.isFlow
      exact ⟨.error ex, h.bind_error, (loopStep_error.2 ⟨rfl, hsignal⟩).symm⟩
    · obtain ⟨o, hbody, rfl⟩ := ends_round.1 hround
      exact ⟨o, h.bind hbody, rfl⟩
  · rintro ⟨o, h, rfl⟩
    obtain ⟨ex, hx', rfl⟩ | ⟨es₁, es₂, ⟨⟩, rfl, hx', hbody⟩ := ends_bind.1 h
    · have hsignal : ¬ex.IsLoopSignal := fun hsignal => hx.not_isFlow hx' hsignal.isFlow
      exact .inl ⟨ex, hx', loopStep_error.2 ⟨rfl, hsignal⟩⟩
    · exact .inr ⟨es₁, es₂, (), rfl, hx', ends_round.2 ⟨o, hbody, rfl⟩⟩

end

namespace Evaluator

variable {e : Evaluator} {ctx : Context} {es : List Exchange} {ref : Ref} {container condition : Code.Operand}
    {body : Code.Block}
  {otherwise : Option Code.Block} {r : Outcome}

/-- One visit of a loop over items: the item is given to the variable, and the body runs. -/
def giveAndRun (e : Evaluator) (ref : Ref) (body : Code.Block) (ctx : Context) (item : Value) : Eval Unit := do
  ref.write ctx item
  e.block body ctx

/-- A loop over items visits them in their order. -/
theorem ends_forItems {items : List Value} : (e.forItems ref body ctx items).Ends es r ↔
    ∃ visits, Visits (e.giveAndRun ref body ctx) items visits r ∧ es = visits.flatMap (·.exchanges) :=
  (ends_visitItems_congr fun v _ _ => ends_round_after (ref.write_flowless v)).trans ends_visitItems

/-! ## The variable -/

/-- A variable of an environment does not take a value that is no string. -/
def NotTaken (ref : Ref) (v : Value) : Prop := ∃ name, ref = .env name ∧ ∀ text, v ≠ .string text

/-- The rounds of a loop over items, by what its variable holds. While the body runs, from one machine to another,
anything may happen; between its runs, nobody moves, and no variable changes but that of the loop. -/
inductive ForRounds (e : Evaluator) (who : TaskId) (ctx : Context) (ref : Ref) (body : Code.Block) :
    List Value → Site → Outcome → Site → Prop
  | done (s : Site) : ForRounds e who ctx ref body [] s (.ok ()) s
  | refused {v : Value} {vs : List Value} {s : Site} (h : NotTaken ref v) :
      ForRounds e who ctx ref body (v :: vs) s
      (.error (.ofCause (.type s!"environment variable must be a string, got {v.kind}"))) s
  | next {v : Value} {vs : List Value} {s s₁ s' : Site} {w : World} {o r : Outcome} (hholds : w.reads ctx ref = v)
      (hspares : s.world.Spares ctx [ref] w) (hbody : (e.block body ctx).Passes who (s.on w) o s₁) (ho : GoesOn o)
      (hrest : ForRounds e who ctx ref body vs s₁ r s') : ForRounds e who ctx ref body (v :: vs) s r s'
  | stopped {v : Value} {vs : List Value} {s s' : Site} {w : World} {o : Outcome} (hholds : w.reads ctx ref = v)
      (hspares : s.world.Spares ctx [ref] w) (hbody : (e.block body ctx).Passes who (s.on w) o s') (ho : Breaks o) :
      ForRounds e who ctx ref body (v :: vs) s (.ok ()) s'
  | left {v : Value} {vs : List Value} {s s' : Site} {w : World} {o : Outcome} (hholds : w.reads ctx ref = v)
      (hspares : s.world.Spares ctx [ref] w) (hbody : (e.block body ctx).Passes who (s.on w) o s') (ho : ¬GoesOn o)
      (ho' : ¬Breaks o) : ForRounds e who ctx ref body (v :: vs) s o s'

/-- When the rounds are over, all is as the last body left it, which started when the variable held its item. After that
body there was no further item, or it ended the loop, or the variable did not take the next item. -/
theorem ForRounds.last {who : TaskId} {items : List Value} {s s' : Site} (h : e.ForRounds who ctx ref body items s r s') :
    (s' = s ∧ (items = [] ∨ ∃ v vs, items = v :: vs ∧ NotTaken ref v)) ∨
    ∃ (before : List Value) (v : Value) (after : List Value) (s₁ : Site) (w : World) (o : Outcome),
    items = before ++ v :: after ∧
      w.reads ctx ref = v ∧ (e.block body ctx).Passes who (s₁.on w) o s' ∧
      (after = [] ∨ ¬GoesOn o ∨ ∃ u us, after = u :: us ∧ NotTaken ref u) := by
  induction h with
  | done => exact .inl ⟨rfl, .inl rfl⟩
  | refused h => exact .inl ⟨rfl, .inr ⟨_, _, rfl, h⟩⟩
  | @next v vs s s₁ s' w o r hholds hspares hbody ho hrest ih =>
    obtain ⟨rfl, hnone⟩ | ⟨before, v', after, s₂, w', o', rfl, hlast⟩ := ih
    · exact .inr ⟨[], v, vs, s, w, o, rfl, hholds, hbody, hnone.imp_right .inr⟩
    · exact .inr ⟨v :: before, v', after, s₂, w', o', rfl, hlast⟩
  | stopped hholds hspares hbody ho =>
    exact .inr ⟨[], _, _, _, _, _, rfl, hholds, hbody, .inr (.inl fun hgoes => hgoes.not_breaks ho)⟩
  | left hholds hspares hbody ho => exact .inr ⟨[], _, _, _, _, _, rfl, hholds, hbody, .inr (.inl ho)⟩

/-- A round goes through its body, and then on as the body's outcome says. -/
theorem through_round {who : TaskId} {β : Type} {x : Eval Unit} {f : LoopStep → Eval β}
    {k : Except Exception β → Task Outcome}
    {s s' : Site} {p : Except Exception β} (hlive : s.Live who (Task.bind (round x >>= f).run k))
    (h : (round x >>= f).Through who k s p s') : ∃ o s₁, x.Passes who s o s₁ ∧ s.world.Covers s₁.world ∧
      ((GoesOn o ∧ s₁.Live who (Task.bind (f .next).run k) ∧ (f .next).Through who k s₁ p s') ∨
        (Breaks o ∧ (f .stop).Through who k s₁ p s') ∨ ∃ ex, o = .error ex ∧ ¬GoesOn o ∧ ¬Breaks o ∧ p = .error ex ∧
        s' = s₁) := by
  unfold Eval.round at hlive h
  rw [bind_assoc] at hlive h
  obtain ⟨o, s₁, hx, h⟩ := through_attempt_bind.1 h
  have hlive := hlive.lift_bind
  have hlive₁ := hlive.after hx
  refine ⟨o, s₁, hx.passes, hlive.covers hx, ?_⟩
  obtain ⟨hgoes, hstep⟩ | ⟨hbreaks, hstep⟩ | ⟨ex, rfl, hex, hstep⟩ := loopStep_cases o
  · rw [hstep] at hlive₁ h
    exact .inl ⟨hgoes, hlive₁, h⟩
  · rw [hstep] at h
    exact .inr (.inl ⟨hbreaks, h⟩)
  · rw [hstep] at h
    obtain ⟨rfl, rfl⟩ := Task.through_ret.1 h
    obtain ⟨hgoes, hbreaks⟩ := leaves_iff.2 ⟨ex, rfl, hex⟩
    exact .inr (.inr ⟨ex, rfl, hgoes, hbreaks, rfl, rfl⟩)

/-- A loop over items gives each to its variable and runs the body, until one breaks or fails. -/
theorem forItems_through {who : TaskId} (href : ref.isWritable = true) : (items : List Value) → ∀ {s s' : Site} {r : Outcome}
    {k : Outcome → Task Outcome}, (s.world.kernel? ctx.kernel).isSome →
    s.Live who (Task.bind (e.forItems ref body ctx items).run k) →
    (e.forItems ref body ctx items).Through who k s r s' → e.ForRounds who ctx ref body items s r s'
  | [], s, s', r, k, _, _, hthrough => by
    obtain ⟨rfl, rfl⟩ := Task.through_ret.1 hthrough
    exact .done _
  | v :: vs, s, s', r, k, hkernel, hlive, hthrough => by
    unfold forItems visitItems at hlive hthrough
    rw [bind_assoc] at hlive hthrough
    have hlive := hlive.eval_bind
    have hwrite : (ref.write ctx v).Alone who _ s.world := (hlive.reaches_write href).write_alone hlive.rooted hkernel v
    obtain ⟨ex, hgiven, rfl⟩ | ⟨⟨⟩, s₁, hgiven, hthrough⟩ := through_bind.1 hthrough
    · obtain ⟨hs', ⟨ho, -⟩ | ⟨⟨name, henv, hv, ho⟩, hw⟩⟩ := hgiven.alone hwrite
      · cases ho
      · rw [hw] at hs'
        obtain rfl : s' = s := hs'
        rw [ho]
        exact .refused ⟨name, henv, hv⟩
    · have hlive₁ := hlive.after hgiven
      obtain ⟨hs₁, ⟨-, hreceives⟩ | ⟨⟨name, henv, hv, ho⟩, -⟩⟩ := hgiven.alone hwrite
      · have hholds : s₁.world.reads ctx ref = v := (Except.ok.inj hreceives.replaced).symm
        have hkernel₁ := hreceives.spares.covers.kernel hkernel
        obtain ⟨o, s₂, hbody, hcovers, hends⟩ := through_round hlive₁ hthrough
        rw [hs₁] at hbody
        obtain ⟨ho, hlive₂, hthrough⟩ | ⟨ho, hthrough⟩ | ⟨ex, rfl, ho, ho', rfl, rfl⟩ := hends
        · exact .next hholds hreceives.spares hbody ho (forItems_through href vs (hcovers.kernel hkernel₁) hlive₂ hthrough)
        · obtain ⟨rfl, rfl⟩ := Task.through_ret.1 hthrough
          exact .stopped hholds hreceives.spares hbody ho
        · exact .left hholds hreceives.spares hbody ho ho'
      · cases ho

/-- How a loop over the items of a container goes. -/
inductive ForGoes (e : Evaluator) (who : TaskId) (ctx : Context) (ref : Ref) (container : Code.Operand) (body : Code.Block)
    (otherwise : Option Code.Block) (s : Site) : Outcome → Site → Prop
  | failed {s' : Site} {ex : Exception} (h : (e.single container ctx "for container").Passes who s (.error ex) s') :
      ForGoes e who ctx ref container body otherwise s (.error ex) s'
  | refused {s' : Site} {v : Value} {c : Cause} (h : (e.single container ctx "for container").Passes who s (.ok v) s')
      (hc : v.iterate = .error c) : ForGoes e who ctx ref container body otherwise s (.error (.ofCause c)) s'
  | never {s₁ s' : Site} {v : Value} {r : Outcome} (h : (e.single container ctx "for container").Passes who s (.ok v) s₁)
      (hitems : v.iterate = .ok []) (hotherwise : (e.optional otherwise ctx).Passes who s₁ r s') :
      ForGoes e who ctx ref container body otherwise s r s'
  | rounds {s₁ s' : Site} {v : Value} {items : List Value} {r : Outcome}
      (h : (e.single container ctx "for container").Passes who s (.ok v) s₁) (hitems : v.iterate = .ok items)
      (hne : items ≠ [])
      (hrounds : e.ForRounds who ctx ref body items s₁ r s') : ForGoes e who ctx ref container body otherwise s r s'

/-- A `for` form evaluates its container and goes through the items. -/
theorem forLoop_through {who : TaskId} (href : ref.isWritable = true) {s s' : Site} {k : Outcome → Task Outcome}
    (hkernel : (s.world.kernel? ctx.kernel).isSome)
    (hlive : s.Live who (Task.bind (e.evalSpecial (.forLoop ref container body otherwise) ctx).run k))
    (hthrough : (e.evalSpecial (.forLoop ref container body otherwise) ctx).Through who k s r s') :
    e.ForGoes who ctx ref container body otherwise s r s' := by
  unfold evalSpecial at hlive hthrough
  have hlive := hlive.eval_bind
  obtain ⟨ex, hcontainer, rfl⟩ | ⟨v, s₁, hcontainer, hthrough⟩ := through_bind.1 hthrough
  · exact .failed hcontainer.passes
  · have hlive₁ := hlive.after hcontainer
    have hkernel₁ := (hlive.covers hcontainer).kernel hkernel
    cases hiterate : v.iterate with
    | error c =>
      rw [hiterate] at hthrough
      obtain ⟨rfl, rfl⟩ := Task.through_ret.1 hthrough
      exact .refused hcontainer.passes hiterate
    | ok items =>
      rw [hiterate] at hthrough
      cases items with
      | nil => exact .never hcontainer.passes hiterate (Task.Through.passes hthrough)
      | cons item items =>
        have hlive₁ : s₁.Live who (Task.bind (ofExcept v.iterate >>= fun items =>
          if items.isEmpty then e.optional otherwise ctx else e.forItems ref body ctx items).run k) := hlive₁
        rw [hiterate] at hlive₁
        exact .rounds hcontainer.passes hiterate (List.cons_ne_nil _ _) (forItems_through href _ hkernel₁ hlive₁ hthrough)

/-- The variable of a loop can be written. -/
theorem compileForm_forLoop {src : String} {source : Source.Form} {form : Code.Form} {scope scope' : Scope}
    (hcompile : (compileForm src source).run.run scope = (.ok form, scope'))
    (haction : form.action = .special (.forLoop ref container body otherwise)) : ref.isWritable = true := by
  obtain ⟨ms, rfl, hallowed⟩ := compileForm_writes src changed_byMention source scope form scope' trivial hcompile
  obtain ⟨temps, action, redirs, place⟩ := form
  obtain rfl : action = _ := haction
  refine hallowed ref (.here ?_)
  simp [Code.Form.mentions, Code.Action.mentions, Code.Special.mentions, Ref.changeMentions]

end Evaluator

/-! ## The laws -/

/-- Lists, maps and strings can be gone through: items, keys and characters. -/
theorem Value.iterate_eq_ok {v : Value} {items : List Value} : v.iterate = .ok items ↔ v = .list items ∨
    (∃ pairs, v = .map pairs ∧ items = pairs.map (·.1)) ∨ ∃ s, v = .string s ∧ items = s.toList.map fun c =>
    .string c.toString := by
  constructor
  · intro h
    cases v with
    | list => exact .inl (congrArg Value.list (Except.ok.inj h))
    | map pairs => exact .inr (.inl ⟨pairs, rfl, (Except.ok.inj h).symm⟩)
    | string s => exact .inr (.inr ⟨s, rfl, (Except.ok.inj h).symm⟩)
    | _ => nomatch h
  · rintro (rfl | ⟨pairs, rfl, rfl⟩ | ⟨s, rfl, rfl⟩) <;> rfl

namespace Evaluator

variable {e : Evaluator} {ctx : Context} {es : List Exchange} {ref : Ref} {container condition : Code.Operand}
    {body : Code.Block}
  {otherwise : Option Code.Block} {r : Outcome}

/-- A loop over items ends like its other part if there are none, and in visits if there are. -/
theorem ends_forLoop_visits : (e.evalSpecial (.forLoop ref container body otherwise) ctx).Ends es r ↔
    (∃ ex, (e.single container ctx "for container").Ends es (.error ex) ∧ r = .error ex) ∨
    ∃ es₁ es₂ v, es = es₁ ++ es₂ ∧ (e.single container ctx "for container").Ends es₁ (.ok v) ∧
      ((∃ c, v.iterate = .error c ∧ es₂ = [] ∧ r = .error (.ofCause c)) ∨
        (v.iterate = .ok [] ∧ (e.optional otherwise ctx).Ends es₂ r) ∨
        ∃ items visits, v.iterate = .ok items ∧ items ≠ [] ∧ Visits (e.giveAndRun ref body ctx) items visits r ∧
          es₂ = visits.flatMap (·.exchanges)) := by
  refine ends_bind.trans (or_congr_right (exists_congr fun es₁ => exists_congr fun es₂ => exists_congr fun v => ?_))
  refine and_congr_right fun _ => and_congr_right fun _ => ends_ofExcept_bind.trans (or_congr_right ?_)
  constructor
  · rintro ⟨items, hitems, h⟩
    cases items with
    | nil => exact .inl ⟨hitems, h⟩
    | cons v vs =>
      obtain ⟨visits, hvisits, hes⟩ := ends_forItems.1 h
      exact .inr ⟨v :: vs, visits, hitems, List.cons_ne_nil v vs, hvisits, hes⟩
  · rintro (⟨hitems, h⟩ | ⟨items, visits, hitems, hne, hvisits, hes⟩)
    · exact ⟨[], hitems, h⟩
    · refine ⟨items, hitems, ?_⟩
      rw [if_neg (by simpa using hne)]
      exact ends_forItems.2 ⟨visits, hvisits, hes⟩

/-- A call for each item of a value ends in visits. -/
theorem ends_each_visits {args : Arguments} {v : Value} (hargs : args.positional[1]? = some v) :
    (e.runBuiltin .each args ctx).Ends es r ↔ (∃ c, v.iterate = .error c ∧ es = [] ∧ r = .error (.ofCause c)) ∨
      ∃ items visits, v.iterate = .ok items ∧
      Visits (fun item => e.call (args.positional.head?.getD .empty) [item] [] ctx) items visits r ∧
        es = visits.flatMap (·.exchanges) := by
  have heach : e.runBuiltin .each args ctx = (ofExcept v.iterate >>= fun items =>
      visitItems (fun item => round (e.call (args.positional.head?.getD .empty) [item] [] ctx)) items) := by
    have hof : Inputs.of args.positional[1]? ctx = (ofExcept v.iterate >>= fun items => pure (.given items)) := by
      rw [hargs]; rfl
    change (Inputs.of args.positional[1]? ctx >>= fun inputs => inputs.visit e.bound _) = _
    rw [hof, bind_assoc]
    rfl
  rw [heach, ends_ofExcept_bind]
  refine or_congr_right (exists_congr fun items => ?_)
  rw [ends_visitItems]
  constructor
  · rintro ⟨hitems, visits, h⟩
    exact ⟨visits, hitems, h⟩
  · rintro ⟨visits, hitems, h⟩
    exact ⟨hitems, visits, h⟩

/-- A loop over a condition ends like its other part if the condition is false the first time, and in rounds if it is
true. -/
theorem whileLoop_visits (h : (e.evalSpecial (.whileLoop condition body otherwise) ctx).Ends es r) :
    (∃ ex, (e.holds condition ctx).Ends es (.error ex) ∧ r = .error ex) ∨
    (∃ es₁ es₂, es = es₁ ++ es₂ ∧ (e.holds condition ctx).Ends es₁ (.ok false) ∧ (e.optional otherwise ctx).Ends es₂ r) ∨
    ((∃ es₁ es₂, es = es₁ ++ es₂ ∧ (e.holds condition ctx).Ends es₁ (.ok true)) ∧
      ∃ n, Loop (e.holdsAgain condition ctx) (fun _ => e.block body ctx) n () es r) := by
  have hfirst : ∀ {es b}, (e.holdsAgain condition ctx ()).Ends es b → ∃ o, (e.holds condition ctx).Ends es o ∧
      b = o.map fun b => if b then some ((), ()) else none := ends_holdsAgain.1
  cases whileLoop_ends h with
  | ran hloop hr =>
    have hall := hloop
    cases hloop with
    | finished => simp at hr
    | failed hmore =>
      obtain ⟨o, hholds, heq⟩ := hfirst hmore
      cases o with
      | error ex =>
        cases heq
        exact .inl ⟨_, hholds, rfl⟩
      | ok b => nomatch heq
    | next hmore | stopped hmore | left hmore =>
      obtain ⟨o, hholds, heq⟩ := hfirst hmore
      rcases o with ex | ⟨⟨⟩⟩
      · nomatch heq
      · nomatch heq
      · exact .inr (.inr ⟨⟨_, _, rfl, hholds⟩, _, hall⟩)
  | never hloop ho =>
    cases hloop with
    | finished hmore =>
      obtain ⟨o, hholds, heq⟩ := hfirst hmore
      rcases o with ex | ⟨⟨⟩⟩
      · nomatch heq
      · exact .inr (.inl ⟨_, _, rfl, hholds, ho⟩)
      · nomatch heq

/-- A condition holds if all its values are true. -/
theorem ends_holds {b : Bool} : (e.holds condition ctx).Ends es (.ok b) ↔
    ∃ vs, (e.operand condition ctx).Ends es (.ok vs) ∧ (b = true ↔ ∀ v ∈ vs, v.truthy = true) := by
  constructor
  · intro h
    obtain ⟨ex, -, heq⟩ | ⟨es₁, es₂, vs, rfl, hvalues, h⟩ := ends_bind.1 h
    · nomatch heq
    · obtain ⟨rfl, heq⟩ := ends_pure.1 h
      cases heq
      exact ⟨vs, by rwa [List.append_nil], List.all_eq_true⟩
  · rintro ⟨vs, hvalues, hb⟩
    refine hvalues.bind_last (ends_pure.2 ⟨rfl, congrArg Except.ok (Bool.eq_iff_iff.2 ?_)⟩)
    exact hb.trans List.all_eq_true.symm

end Evaluator

/-- What loops do with their items, for every body. -/
structure LoopsLawful : Prop where
  /-- The items of a list, the keys of a map, the characters of a string are visited. -/
  items {v : Value} {items : List Value} : v.iterate = .ok items ↔ v = .list items ∨
    (∃ pairs, v = .map pairs ∧ items = pairs.map (·.1)) ∨ ∃ s, v = .string s ∧ items = s.toList.map fun c =>
    .string c.toString
  /-- The items of a loop are those of the value that its container had. If there are none, the other part runs, and
  else not. -/
  forLoop {e : Evaluator} {ctx : Context} {es : List Exchange} {ref : Ref} {container : Code.Operand} {body : Code.Block}
    {otherwise : Option Code.Block} {r : Outcome} : (e.evalSpecial (.forLoop ref container body otherwise) ctx).Ends es r ↔
    (∃ ex, (e.single container ctx "for container").Ends es (.error ex) ∧ r = .error ex) ∨
    ∃ es₁ es₂ v, es = es₁ ++ es₂ ∧ (e.single container ctx "for container").Ends es₁ (.ok v) ∧
      ((∃ c, v.iterate = .error c ∧ es₂ = [] ∧ r = .error (.ofCause c)) ∨
        (v.iterate = .ok [] ∧ (e.optional otherwise ctx).Ends es₂ r) ∨
        ∃ items visits, v.iterate = .ok items ∧ items ≠ [] ∧ Visits (e.giveAndRun ref body ctx) items visits r ∧
          es₂ = visits.flatMap (·.exchanges))
  /-- And those of a call for each item are those of the value it was given. -/
  each {e : Evaluator} {ctx : Context} {es : List Exchange} {args : Arguments} {v : Value} {r : Outcome}
    (hargs : args.positional[1]? = some v) : (e.runBuiltin .each args ctx).Ends es r ↔
    (∃ c, v.iterate = .error c ∧ es = [] ∧ r = .error (.ofCause c)) ∨
      ∃ items visits, v.iterate = .ok items ∧
      Visits (fun item => e.call (args.positional.head?.getD .empty) [item] [] ctx) items visits r ∧
        es = visits.flatMap (·.exchanges)
  /-- The variable holds the item when the body starts. -/
  holdsItem {e : Evaluator} {who : TaskId} {ctx : Context} {ref : Ref} {container : Code.Operand} {body : Code.Block}
    {otherwise : Option Code.Block} {r : Outcome} {src : String} {source : Source.Form} {form : Code.Form}
    {scope scope' : Scope}
    {s s' : Site} {k : Outcome → Task Outcome} (hcompile : (compileForm src source).run.run scope = (.ok form, scope'))
    (haction : form.action = .special (.forLoop ref container body otherwise))
    (hkernel : (s.world.kernel? ctx.kernel).isSome)
    (hlive : s.Live who (Task.bind (e.evalSpecial (.forLoop ref container body otherwise) ctx).run k))
    (hthrough : (e.evalSpecial (.forLoop ref container body otherwise) ctx).Through who k s r s') :
    e.ForGoes who ctx ref container body otherwise s r s'
  /-- When the loop is over, all is as the last body left it. -/
  keepsItem {e : Evaluator} {who : TaskId} {ctx : Context} {ref : Ref} {body : Code.Block} {items : List Value}
    {r : Outcome} {s s' : Site} (h : e.ForRounds who ctx ref body items s r s') :
    (s' = s ∧ (items = [] ∨ ∃ v vs, items = v :: vs ∧ Evaluator.NotTaken ref v)) ∨
    ∃ (before : List Value) (v : Value) (after : List Value) (s₁ : Site) (w : World) (o : Outcome),
    items = before ++ v :: after ∧
      w.reads ctx ref = v ∧ (e.block body ctx).Passes who (s₁.on w) o s' ∧
      (after = [] ∨ ¬GoesOn o ∨ ∃ u us, after = u :: us ∧ Evaluator.NotTaken ref u)
  /-- If the condition is false the first time, the other part runs, and else not. -/
  whileLoop {e : Evaluator} {ctx : Context} {es : List Exchange} {condition : Code.Operand} {body : Code.Block}
    {otherwise : Option Code.Block} {r : Outcome} (h : (e.evalSpecial (.whileLoop condition body otherwise) ctx).Ends es r) :
    (∃ ex, (e.holds condition ctx).Ends es (.error ex) ∧ r = .error ex) ∨
    (∃ es₁ es₂, es = es₁ ++ es₂ ∧ (e.holds condition ctx).Ends es₁ (.ok false) ∧ (e.optional otherwise ctx).Ends es₂ r) ∨
    ((∃ es₁ es₂, es = es₁ ++ es₂ ∧ (e.holds condition ctx).Ends es₁ (.ok true)) ∧
      ∃ n, Loop (e.holdsAgain condition ctx) (fun _ => e.block body ctx) n () es r)
  /-- It comes to its end if it does so in fewer rounds than the bound. -/
  whileLoop_ends {e : Evaluator} {ctx : Context} {es : List Exchange} {condition : Code.Operand} {body : Code.Block}
    {otherwise : Option Code.Block} {r : Outcome}
    (h : LoopForm (fun n es r => n < e.bound ∧ Loop (e.holdsAgain condition ctx) (fun _ => e.block body ctx) n () es r)
      (e.optional otherwise ctx) es r) : (e.evalSpecial (.whileLoop condition body otherwise) ctx).Ends es r
  /-- A condition holds if all its values are true, none included. -/
  condition {e : Evaluator} {ctx : Context} {es : List Exchange} {condition : Code.Operand} {b : Bool} :
    (e.holds condition ctx).Ends es (.ok b) ↔
      ∃ vs, (e.operand condition ctx).Ends es (.ok vs) ∧ (b = true ↔ ∀ v ∈ vs, v.truthy = true)

/-- Loops visit the first of their items, in order. -/
theorem loops_lawful : LoopsLawful where
  items := Value.iterate_eq_ok
  forLoop := Evaluator.ends_forLoop_visits
  each hargs := Evaluator.ends_each_visits hargs
  holdsItem hcompile haction hkernel hlive hthrough :=
    Evaluator.forLoop_through (Evaluator.compileForm_forLoop hcompile haction) hkernel hlive hthrough
  keepsItem h := h.last
  whileLoop h := Evaluator.whileLoop_visits h
  whileLoop_ends h := Evaluator.ends_whileLoop h
  condition := Evaluator.ends_holds

/-- The loop `for x ab { put $x }`. -/
def spelling : Source.Body :=
  Sample.command (.bare "for") [.bare "x", .bare "ab", Sample.lambda [Sample.command (.bare "put") [Sample.value "x"]]]

/-- The body of the loop, resolved. -/
def spellingBody : Code.Block := Sample.program (.call ⟨.builtin .put, [.var (.local "x") false], []⟩) "put $x"

/-- The loop, resolved. -/
def spelled : Code.Action := .special (.forLoop (.local "x") (.literal "ab") spellingBody none)

/-- A machine that has resolved the loop as a program. -/
def spelledMachine : World := (Sample.machine.compile 0 (Sample.chunk [spelling]) "").2

/-- The loop runs as a program. -/
theorem loops_lawful_spelling : ∃ (e : Evaluator) (ctx : Context) (s s' : Site) (r : Outcome) (k : Outcome → Task Outcome),
    s.Live 0 (Task.bind (e.evalAction spelled ctx).run k) ∧ (e.evalAction spelled ctx).Through 0 k s r s' ∧
      e.ForGoes 0 ctx (.local "x") (.literal "ab") spellingBody none s r s' := by
  have hform : (compileForm "" ⟨[], spelling, [], ⟨0, 0⟩⟩).run.run (.ofGlobals []) =
      (.ok ⟨[], spelled, [], ⟨"", ⟨0, 0⟩⟩⟩, (Scope.ofGlobals []).declare "x") := by cbv
  have hblock : (Sample.machine.compile 0 (Sample.chunk [spelling]) "").1 =
    .ok (Sample.program spelled "for x ab { put $x }") := by cbv
  have hcompile : Sample.machine.compile 0 (Sample.chunk [spelling]) "" =
    (.ok (Sample.program spelled "for x ab { put $x }"), spelledMachine) :=
    Prod.ext hblock rfl
  have hglobals : (spelledMachine.kernel? 0).map (·.globals) = some 0 := by cbv
  have hrun : ((Sample.started spelledMachine (Sample.program spelled "for x ab { put $x }")).1.run 0 100 false
      (Sample.started spelledMachine (Sample.program spelled "for x ab { put $x }")).2).1 = .ended (.ok ()) := by cbv
  obtain ⟨ctx, s, s', r, k, hkernel, hlive, hthrough⟩ := Sample.goes_through hcompile hglobals hrun
  exact ⟨_, ctx, s, s', r, k, hlive, hthrough, loops_lawful.holdsItem hform rfl hkernel hlive hthrough⟩

end DualShell
