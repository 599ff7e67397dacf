import DualShell.Proofs.Assigned.Touch
import DualShell.Proofs.Machine.Discipline

/-!
# Code that finds its variables

The contract of straight code: a variable that is read or indexed into is bound, and one that is taken along by a
closure is bound or is that of the function being defined. It is kept over states that tell which names are bound in
which frame (`Bindings`). Code of one activation deletes variables of its own frame only, so others find theirs where
they left them (`within`). `Eval.Does` says that code does to its frame what a list of touches says, if what is bound
before covers the list.
-/

namespace DualShell

open Eval

/-- The frames there are, and the names that are bound in them. -/
structure Bindings where
  made : FrameId → Prop
  has : FrameId → String → Prop
  made_of_has : ∀ f n, has f n → made f

namespace Bindings

/-- Nothing was deleted from the first to the second. -/
structure Le (s s' : Bindings) : Prop where
  made : ∀ f, s.made f → s'.made f
  has : ∀ f n, s.has f n → s'.has f n

theorem Le.refl (s : Bindings) : s.Le s := ⟨fun _ => id, fun _ _ => id⟩

theorem Le.trans {s s' s'' : Bindings} (h : s.Le s') (h' : s'.Le s'') : s.Le s'' :=
  ⟨fun f hf => h'.made f (h.made f hf), fun f n hn => h'.has f n (h.has f n hn)⟩

/-- The frame is there, with names bound in it. -/
structure Holds (s : Bindings) (f : FrameId) (held : String → Prop) : Prop where
  made : s.made f
  has : ∀ n, held n → s.has f n

/-- What is held by a frame is held later, too. -/
theorem Holds.mono {s s' : Bindings} {f : FrameId} {held : String → Prop} (h : s.Holds f held) (hs : s.Le s') :
    s'.Holds f held :=
  ⟨hs.made f h.made, fun n hn => hs.has f n (h.has n hn)⟩

end Bindings

/-- Closures whose bodies are covered by the names of their arguments. -/
def coveredBodies : Quality := ⟨fun c => Covers (· ∈ c.op.variables) c.op.body.touches, fun _ => True⟩

/-- Work that only takes what comes through a channel. -/
def Work.Gathers : Work → Prop
  | .gather .. => True
  | _ => False

namespace Bindings

/-- What has to hold when a request is made. -/
def Needs (s : Bindings) : Request → Prop
  | .cell f name .read => s.has f name
  | .cell f name .edit => s.has f name
  | .cell f name (.capture defined) => s.made f ∧ (s.has f name ∨ defined = some name)
  | .cell f _ .write => s.made f
  | .startJob .. => False
  | .spawn work => work.Gathers
  | r => r.Sound coveredBodies

/-- What holds once it is answered. -/
def Tells (s : Bindings) (r : Request) (x : r.Response) (s' : Bindings) : Prop :=
  match r, x with
  | .cell f name _, _ => s.Le s' ∧ s'.has f name
  | .unbind f name, _ => (∀ g, s.made g → s'.made g) ∧ ∀ g n, s.has g n → g ≠ f ∨ n ≠ name → s'.has g n
  | .activate _ vars _, f => s.Le s' ∧ ¬s.made f ∧ s'.made f ∧ ∀ p ∈ vars, s'.has f p.1
  | r, x => s.Le s' ∧ r.Answered coveredBodies x

/-- Requests that leave frames alone need nothing but sound values. -/
theorem needs_of_sound {s : Bindings} {r : Request} (hr : r.LeavesFrames) (h : r.Sound coveredBodies) : s.Needs r := by
  cases r <;> first | exact h | exact hr.elim

/-- Answers to requests that leave frames alone make no binding go. -/
theorem Tells.plainly {s s' : Bindings} {r : Request} {x : r.Response} (h : s.Tells r x s') (hr : r.LeavesFrames) :
    s.Le s' ∧ r.Answered coveredBodies x := by
  cases r <;> first | exact h | exact hr.elim

end Bindings

/-- The contract of code that finds its variables. -/
def finding : Discipline where
  State := Bindings
  Later := Bindings.Le
  quality _ := coveredBodies
  Needs := Bindings.Needs
  Tells := Bindings.Tells
  refl := Bindings.Le.refl
  trans := Bindings.Le.trans
  quality_mono _ := ⟨fun _ h => h, fun _ h => h⟩
  needs_plain hp hs := Bindings.needs_of_sound hp.leavesFrames hs
  later_of_tells hp h := (h.plainly hp.leavesFrames).1
  answered_of_tells hp h := (h.plainly hp.leavesFrames).2

/-- Code that deletes nothing of some of the frames. -/
def sparing (spared : FrameId → Prop) : Course finding where
  Leads s s' := (∀ f, s.made f → s'.made f) ∧ ∀ f n, spared f → s.has f n → s'.has f n
  refl _ := ⟨fun _ => id, fun _ _ _ => id⟩
  trans h h' := ⟨fun f hf => h'.1 f (h.1 f hf), fun f n hs hn => h'.2 f n hs (h.2 f n hs hn)⟩
  of_later h := ⟨h.made, fun f n _ => h.has f n⟩
  quality_mono _ := ⟨fun _ h => h, fun _ h => h⟩

/-- Code of an activation, which deletes nothing of other frames. -/
abbrev within (f : FrameId) : Course finding := sparing (· ≠ f)

namespace Eval

/-- Code of an activation does so to its frame, and what it yields satisfies `P`. -/
def Does {α : Type} (f : FrameId) (ts : List Touch) (P : α → Prop) (x : Eval α) : Prop :=
  ∀ held s, Covers held ts → Bindings.Holds s f held →
    x.Safe (within f) (fun a s' => P a ∧ Bindings.Holds s' f (ts.foldl Touch.after held)) s

namespace Does

variable {α β : Type} {f : FrameId} {ts us : List Touch} {P : α → Prop} {R : β → Prop}

/-- What yields a value without looking touches nothing. -/
theorem pure {a : α} (h : P a) : (Pure.pure a : Eval α).Does f [] P := fun _ _ _ hs => .pure ⟨h, hs⟩

/-- What does not end touches whatever it is said to. -/
theorem exhausted : (Eval.exhausted : Eval α).Does f ts P := fun _ _ _ _ => .exhausted

/-- A plain failure touches whatever it is said to. -/
theorem fail {c : Cause} (h : coveredBodies.cause c) : (Eval.fail c : Eval α).Does f ts P := fun _ _ _ _ => .fail h

theorem throw {ex : Exception} (h : ex.Sound coveredBodies) : (MonadExcept.throw ex : Eval α).Does f ts P :=
  fun _ _ _ _ => .throw h

/-- What straight code does not do is not covered. -/
theorem stray {x : Eval α} : x.Does f (.stray :: ts) P := fun _ _ h _ => h.not_stray.elim

/-- What one part touches comes before what the next one does. -/
theorem bind {x : Eval α} {g : α → Eval β} (hx : x.Does f ts P) (hg : ∀ a, P a → (g a).Does f us R) :
    (x >>= g).Does f (ts ++ us) R := by
  intro held s hc hs
  obtain ⟨hts, hus⟩ := hc.of_append
  refine (hx held s hts hs).bind fun a s' _ ha => ?_
  rw [List.foldl_append]
  exact hg a ha.1 _ s' hus ha.2

/-- What comes last does nothing to the frame. -/
theorem before {x : Eval α} {g : α → Eval β} (hx : x.Does f ts P) (hg : ∀ a, P a → (g a).Does f [] R) :
    (x >>= g).Does f ts R := by
  have h := hx.bind hg
  rwa [List.append_nil] at h

/-- What comes last makes the result of what comes before it. -/
theorem map {x : Eval α} {g : α → β} (hx : x.Does f ts P) (hg : ∀ a, P a → R (g a)) :
    (x >>= fun a => Pure.pure (g a)).Does f ts R :=
  hx.before fun a ha => .pure (hg a ha)

/-- What comes first does nothing to the frame. -/
theorem after {x : Eval α} {g : α → Eval β} (hx : x.Does f [] P) (hg : ∀ a, P a → (g a).Does f ts R) :
    (x >>= g).Does f ts R :=
  hx.bind hg

/-- Code that deletes nothing leaves the frame as it is. -/
theorem ofAside {x : Eval α} (h : ∀ s, x.Safe finding.aside (fun a _ => P a) s) : x.Does f [] P := by
  intro held s _ hs
  have hwiden : x.Safe (within f) (fun a s' => finding.Later s s' ∧ P a) s :=
    ((h s).mono fun a s' hs' ha => ⟨hs', ha⟩).widen fun s' hs' => (within f).of_later hs'
  exact hwiden.mono fun a s' _ ha => ⟨ha.2, hs.mono ha.1⟩

/-- What suits everybody touches nothing. -/
theorem ofHarmless {x : Eval α} (h : x.Harmless finding.aside) : x.Does f [] fun _ => True := .ofAside fun s => h s

theorem ofExcept {x : Except Cause α} (h : coveredBodies.Yields P x) : (Eval.ofExcept x).Does f [] P :=
  .ofAside fun _ => .ofExcept (D := finding) (Q := fun a _ => P a) h

/-- A computation on texts. -/
theorem ofPlain {x : Except Cause α} (h : coveredBodies.Plain x) : (Eval.ofExcept x).Does f [] fun _ => True := .ofExcept h

/-- A plain request is answered with something sound. -/
theorem askPlain {r : Request} (hp : r.LeavesFrames) (hs : r.Sound coveredBodies) :
    (Eval.ask r).Does f [] (r.Answered coveredBodies) :=
  .ofAside fun _ => .ask (D := finding) (Bindings.needs_of_sound hp hs) fun _ _ hx => hx.plainly hp

/-- Success is gone on from, and failure ends in failure. -/
theorem attempt {x : Eval α} {g : Except Exception α → Eval β} (hx : x.Does f ts P)
    (hok : ∀ a, P a → (g (.ok a)).Does f [] R)
    (herror : ∀ ex s, ex.Sound coveredBodies → (g (.error ex)).Safe (within f) (fun _ _ => False) s) :
    (Eval.attempt x >>= g).Does f ts R := by
  intro held s hc hs
  refine (hx held s hc hs).attempt.bind fun r s' _ hr => ?_
  cases r with
  | ok a => exact hok a hr.1 _ s' .nil hr.2
  | error ex => exact (herror ex s' hr).mono fun _ _ _ h => h.elim

end Does

end Eval

/-! ## Variables -/

variable {f : FrameId} {name : String}

/-- A variable that is bound is found. -/
theorem ask_find {access : Access} (h : access = .read ∨ access = .edit) :
    (ask (.cell f name access)).Does f [.find name] fun _ => True := by
  intro held s hc hs
  cases hc with
  | find hheld _ =>
    refine .ask (D := finding) ?_ fun _ _ hx => ⟨(within f).of_later hx.1, trivial, hs.mono hx.1⟩
    rcases h with rfl | rfl <;> exact hs.has name hheld

/-- A name that is reached for to be written is bound. -/
theorem ask_bind : (ask (.cell f name .write)).Does f [.bind name] fun _ => True := by
  intro held s _ hs
  refine .ask (D := finding) hs.made fun _ s' hx => ⟨(within f).of_later hx.1, trivial, (hs.mono hx.1).made, fun n hn => ?_⟩
  rcases hn with hn | rfl
  · exact (hs.mono hx.1).has n hn
  · exact hx.2

/-- A name that is deleted is dropped. -/
theorem ask_drop : (ask (.unbind f name)).Does f [.drop name] fun _ => True := by
  intro held s _ hs
  refine .ask (D := finding) trivial fun _ s' hx => ⟨⟨hx.1, fun g n hg hn => hx.2 g n hn (.inl hg)⟩, trivial,
    hx.1 f hs.made, fun n hn => ?_⟩
  exact hx.2 f n (hs.has n hn.1) (.inr hn.2)

end DualShell
