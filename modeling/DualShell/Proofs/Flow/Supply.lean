import Mathlib.Data.List.Forall2
import DualShell.Eval.Stream

/-!
# What a form supplies

A task that takes items of an input nobody feeds any more, and writes bytes: what it writes in the end does not depend
on how much of it is accepted at a time (`Task.Supplies`). This is read off the tree of requests and composes along
`bind`. A loop over the items of both streams that writes a text for each value supplies the texts in order
(`Eval.supplies_visitStream`).
-/

namespace DualShell

/-- The task, which reads from a channel in this state and writes to an outlet, writes the bytes up to those that `Q`
holds of together with the value that the task yields and the state of its input then. -/
inductive Task.Supplies {α : Type} (who : TaskId) (i : ChannelId) (o : Outlet) (Q : α → Channel → Bytes → Prop) :
    Task α → Channel → Bytes → Prop
  | ret {a : α} {c : Channel} {data : Bytes} (h : Q a c data) : Supplies who i o Q (.ret a) c data
  | item {m m' : Merging} {next : Step (Option Value) × Merging → Task α} {c c' : Channel} {data : Bytes}
      {step : Step (Option Value)} (hitem : c.item .values who m = (step, m', c')) (hstep : step ≠ .blocked)
      (hnext : Supplies who i o Q (next (step, m')) c' data) :
      Supplies who i o Q (.request (.item (.channel i) m) next) c data
  /-- The bytes may be accepted in pieces. -/
  | write {piece : Bytes} {next : Except Cause Nat → Task α} {c : Channel} {data : Bytes} (hpiece : piece ≠ [])
      (hnext : ∀ n, 0 < n → n ≤ piece.length → Supplies who i o Q (next (.ok n)) c (piece.drop n ++ data)) :
      Supplies who i o Q (.request (.write o piece) next) c (piece ++ data)

namespace Task.Supplies

variable {α β : Type} {who : TaskId} {i : ChannelId} {o : Outlet} {Q : α → Channel → Bytes → Prop} {t : Task α}
    {c : Channel} {data : Bytes}

/-- Less may be concluded of what a task supplies. -/
theorem mono {R : α → Channel → Bytes → Prop} (h : t.Supplies who i o Q c data) (hQ : ∀ a c data, Q a c data → R a c data) :
    t.Supplies who i o R c data := by
  induction h with
  | ret h => exact .ret (hQ _ _ _ h)
  | item hitem hstep _ ih => exact .item hitem hstep ih
  | write hpiece _ ih => exact .write hpiece ih

/-- Tasks supply one after another. -/
theorem bind {f : α → Task β} {R : β → Channel → Bytes → Prop}
    (h : t.Supplies who i o (fun a c data => (f a).Supplies who i o R c data) c data) :
    (t.bind f).Supplies who i o R c data := by
  induction h with
  | ret h => exact h
  | item hitem hstep _ ih => exact .item hitem hstep ih
  | write hpiece _ ih => exact .write hpiece ih

end Task.Supplies

/-- The channel holds the values and no bytes, and nobody feeds it any more. -/
structure Channel.Holds (c : Channel) (vs : List Value) : Prop where
  values : c.values.items.toList = vs
  senders : c.values.senders = 0
  bytes : c.pipe.buffer.size = 0
  writers : c.pipe.writers = 0
  reader : c.reader = .empty

theorem Channel.holds_closedWith (vs : List Value) : (Channel.closedWith [] vs).Holds vs :=
  ⟨Queue.toList_ofList vs, rfl, rfl, rfl, rfl⟩

namespace Channel.Holds

variable {c : Channel} {v : Value} {vs : List Value}

/-- A value that waits is the next item. -/
theorem item_value (h : c.Holds (v :: vs)) (who : TaskId) :
    ∃ c', c.item .values who .both = (.done (some v), .both, c') ∧ c'.Holds vs := by
  have hfst : (c.values.items.take 1).1 = [v] := by rw [Queue.take_fst, h.values]; rfl
  have hsnd : (c.values.items.take 1).2.toList = vs := by rw [Queue.toList_take_snd, h.values]; rfl
  rcases htake : c.values.items.take 1 with ⟨front, items⟩
  rw [htake] at hfst hsnd
  obtain rfl : front = [v] := hfst
  refine ⟨{ c with values := { c.values with items } }, ?_, hsnd, h.senders, h.bytes, h.writers, h.reader⟩
  simp [Channel.item, Merging.both, valueItem, recv, ValueQueue.recv, htake]

/-- When there is no value left, first the values end, then the lines, and then the items. -/
theorem item_end (h : c.Holds []) (who : TaskId) : c.item .values who .both = (.more, ⟨false, true⟩, c) ∧
    c.item .values who ⟨false, true⟩ = (.more, ⟨false, false⟩, c) ∧
    c.item .values who ⟨false, false⟩ = (.done none, ⟨false, false⟩, c) := by
  have hfst : (c.values.items.take 1).1 = [] := by rw [Queue.take_fst, h.values]; rfl
  rcases htake : c.values.items.take 1 with ⟨front, items⟩
  rw [htake] at hfst
  obtain rfl : front = [] := hfst
  refine ⟨?_, ?_, rfl⟩
  · simp [Channel.item, Merging.both, valueItem, recv, ValueQueue.recv, htake, h.senders]
  · have hread : c.pipe.read who fetchSize = (.bytes [], c.pipe) := by simp [BytePipe.read, h.bytes, h.writers]
    have hline : c.line who = (.done none, { c with reader := .empty }) := by
      simp [line, reading, LineReader.line, h.reader, LineReader.empty, BytePipe.fetch, hread]
    rw [← h.reader] at hline
    simp [Channel.item, valueItem, lineItem, hline]

end Channel.Holds

namespace Eval

variable {α β : Type} {who : TaskId} {i : ChannelId} {o : Outlet} {Q : Except Exception α → Channel → Bytes → Prop}
  {R : Except Exception β → Channel → Bytes → Prop} {x : Eval α} {f : α → Eval β} {c : Channel} {data rest : Bytes}

/-- The evaluation supplies bytes. -/
abbrev Supplies (who : TaskId) (i : ChannelId) (o : Outlet) (Q : Except Exception α → Channel → Bytes → Prop) (x : Eval α)
    (c : Channel) (data : Bytes) : Prop :=
  Task.Supplies who i o Q x.run c data

theorem supplies_pure {a : α} (h : Q (.ok a) c data) : (pure a : Eval α).Supplies who i o Q c data := .ret h

theorem supplies_bind (h : x.Supplies who i o (fun r c data =>
    match r with
    | .ok a => (f a).Supplies who i o R c data
    | .error ex => R (.error ex) c data) c data) : (x >>= f).Supplies who i o R c data := by
  refine Task.Supplies.bind (h.mono fun r c data hr => ?_)
  cases r with
  | ok a => exact hr
  | error ex => exact .ret hr

/-- All bytes are written, however much is accepted at a time. -/
theorem supplies_writeAll {Q : Except Exception Unit → Channel → Bytes → Prop} {bound : Nat} (hbound : data.length < bound)
    (h : Q (.ok ()) c rest) : (o.writeAll bound data).Supplies who i o Q c (data ++ rest) := by
  induction bound generalizing data with
  | zero => exact absurd hbound (Nat.not_lt_zero _)
  | succ bound ih =>
    unfold Outlet.writeAll
    cases data with
    | nil => exact supplies_pure h
    | cons b data =>
      refine Task.Supplies.write (List.cons_ne_nil b data) fun n hn _ => ?_
      have hfewer : ((b :: data).drop n).length < bound := by
        rw [List.length_drop]
        simp only [List.length_cons] at hbound ⊢
        omega
      exact ih hfewer

/-- The next item of an input that holds values is the first of them. -/
theorem supplies_nextItem {Q : Except Exception (Option Value × Merging) → Channel → Bytes → Prop} {v : Value}
    {vs : List Value} {bound : Nat}
    (hbound : 0 < bound) (hc : c.Holds (v :: vs)) (h : ∀ c', c'.Holds vs → Q (.ok (some v, .both)) c' data) :
    ((Inlet.channel i).nextItem bound .both).Supplies who i o Q c data := by
  obtain ⟨bound, rfl⟩ := Nat.exists_eq_add_of_le' hbound
  obtain ⟨c', hitem, hc'⟩ := hc.item_value who
  unfold Inlet.nextItem
  exact Task.Supplies.item hitem nofun (.ret (h c' hc'))

/-- After the last value the items end. -/
theorem supplies_noItem {Q : Except Exception (Option Value × Merging) → Channel → Bytes → Prop} {bound : Nat}
    (hbound : 3 ≤ bound) (hc : c.Holds []) (h : Q (.ok (none, ⟨false, false⟩)) c data) :
    ((Inlet.channel i).nextItem bound .both).Supplies who i o Q c data := by
  obtain ⟨bound, rfl⟩ := Nat.exists_eq_add_of_le' hbound
  obtain ⟨hvalues, hlines, hboth⟩ := hc.item_end who
  unfold Inlet.nextItem
  refine Task.Supplies.item hvalues nofun ?_
  refine Task.Supplies.item hlines nofun ?_
  exact Task.Supplies.item hboth nofun (.ret h)

/-- A loop that writes a text for each value supplies the texts in order. -/
theorem supplies_visitStream {visit : Value → Eval LoopStep} {vs : List Value} {texts : List Bytes}
    (hvisit : List.Forall₂
      (fun v text => ∀ (Q : Except Exception LoopStep → Channel → Bytes → Prop) (c : Channel) (rest : Bytes),
      Q (.ok .next) c rest → (visit v).Supplies who i o Q c (text ++ rest)) vs texts)
    {Q : Except Exception Unit → Channel → Bytes → Prop} {bound rounds : Nat} (hbound : 3 ≤ bound)
    (hrounds : vs.length < rounds) (hc : c.Holds vs) (h : ∀ c, Q (.ok ()) c rest) :
    (visitStream bound visit (.channel i) rounds .both).Supplies who i o Q c (texts.flatten ++ rest) := by
  induction hvisit generalizing rounds c with
  | nil =>
    obtain ⟨rounds, rfl⟩ := Nat.exists_eq_add_of_le' hrounds
    unfold visitStream
    exact supplies_bind (supplies_noItem hbound hc (supplies_pure (h _)))
  | @cons v text vs texts hv _ ih =>
    obtain ⟨rounds, rfl⟩ := Nat.exists_eq_add_of_le' (Nat.lt_of_le_of_lt (Nat.zero_le _) hrounds)
    unfold visitStream
    rw [List.flatten_cons, List.append_assoc]
    refine supplies_bind (supplies_nextItem (by omega) hc fun c' hc' => ?_)
    exact supplies_bind (hv _ c' _ (ih (Nat.lt_of_succ_lt_succ hrounds) hc'))

end Eval

end DualShell
