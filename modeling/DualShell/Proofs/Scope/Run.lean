import DualShell.Proofs.Eval.Run
import DualShell.Proofs.Scope.Resolve
import DualShell.Proofs.Scope.Variable

/-!
# Runs in place

Code in place leaves everything in place (`placed_lawful`), so all that the evaluator runs in place does. A call of a
closure that sits right puts its body in place again: the new frame may bind every name, and its home is the frame whose
activation made the closure, so what was so many frames out for that activation is one frame further out for the body
(`Closure.Sits.enter`). A module that resolves runs in a frame without a home, where nothing is taken from outside
(`TopLevel.fits`).
-/

namespace DualShell

open Eval

variable {closed : Prop} {G : Layout} {ctx : Context}

/-- The body of a closure that sits right is in place in a new frame whose home is the frame of the activation that made
the closure. -/
theorem Closure.Sits.enter {c : Closure} {f : FrameId} (hc : closed → c.Sits G) (hhome : G.home f = some (some c.home))
    (hbinds : ∀ name, G.binds f name) : (ctx.enter f c.captures).Fits closed G c.op.body.mentions := by
  intro m hm
  cases m with
  | «local» name => exact hbinds name
  | taken name level =>
    intro hclosed
    obtain ⟨cap, hcap, rfl, rfl⟩ := (hc hclosed).linked.within _ hm
    obtain ⟨cell, g, hcell, hg, hslot⟩ := (hc hclosed).taken cap hcap
    refine ⟨Nat.succ_pos _, cell, g, hcell, ?_, hslot⟩
    simp only [Context.enter, Layout.ancestor?, hhome]
    exact hg
  | fixed name => exact fun hclosed => (hc hclosed).linked.within _ hm
  | drop name => trivial
  | change ref => trivial
  | make op => exact fun hclosed => (hc hclosed).linked.inner op hm

/-- A program that resolved at a top level that knew no names is in place in a new frame, with nothing taken along. -/
theorem TopLevel.fits {after : List String} {block : Code.Block} (h : TopLevel [] after block) {f : FrameId}
    (hbinds : ∀ name, G.binds f name) (hf : ctx.frame = f) : ctx.Fits closed G block.mentions := by
  intro m hm
  cases m with
  | «local» name => exact hf ▸ hbinds name
  | taken name level => exact (h.taken name level hm).elim
  | fixed name => exact fun _ => h.fixed name hm
  | drop name => trivial
  | change ref => trivial
  | make op => exact fun _ => h.make op hm

/-- Code runs where it is in place. -/
def placed (closed : Prop) : Placement (layout closed) where
  Admits G ctx ms := ctx.Fits closed G ms
  later h hfits := Context.Fits.mono h hfits
  sub h := h.sub
  withDescriptors h := h.withDescriptors

/-- Code in place leaves everything in place. -/
theorem placed_lawful (closed : Prop) : (placed closed).Lawful where
  read ref h := ref.read_safe h
  peek ref h := ref.peek_safe h
  write ref _ h hv := ref.write_safe (Context.Fits.left h) hv
  edit ref _ h hc := ref.edit_safe (Context.Fits.left h) hc
  unbind _ _ := .ask (D := layout closed) trivial fun _ _ hx => ⟨hx.1, trivial⟩
  close defined h := Code.Lambda.close_safe defined h
  enter {ctx G c vars} _ hc hvars := by
    have hactivate : (ask (.activate (some c.home) vars ctx.imports)).Safe (aside closed)
        (fun f G' => G.Le G' ∧ G'.home f = some (some c.home) ∧ ∀ name, G'.binds f name) G :=
      .ask (D := layout closed) hvars fun _ _ hx => ⟨hx.1, hx.1, hx.2.2⟩
    exact hactivate.mono fun f G' _ hf => Closure.Sits.enter (fun hclosed => (hc hclosed).mono hf.1) hf.2.1 hf.2.2
  startJob h := .ask (D := layout closed) h fun _ _ hx => ⟨hx.1, trivial⟩
  spawn h := .ask (D := layout closed) h fun _ _ hx => ⟨hx.1, trivial⟩
  gather _ _ _ h := .ask (D := layout closed) h fun _ _ hx => ⟨hx.1, trivial⟩

/-- A module runs in a new frame, where all it reaches for may be bound. -/
theorem placed_ignoresModules (closed : Prop) : (placed closed).IgnoresModules where
  free G r hr := by
    cases r with
    | findModule | claimModule | fetchModule | settleModule => exact ⟨trivial, fun _ _ hx => hx.1⟩
    | _ => exact hr.elim
  enter {key chunk body scope ctx G} hbody _ := by
    have hactivate : (ask (.activate none [] (ctx.imports ++ [key]))).Safe (aside closed) (fun f G' => ∀ name,
      G'.binds f name) G :=
      .ask (D := layout closed) (List.forall_mem_nil _) fun _ _ hx => ⟨hx.1, hx.2.2.2⟩
    exact hactivate.mono fun f G' _ hbinds => (Source.Chunk.compile_topLevel hbody).fits hbinds rfl

/-- The tasks of a layout: all they ask is in place, and they end soundly. -/
def Layout.Allows (closed : Prop) (G : Layout) (t : Task Outcome) : Prop :=
  t.Keeps (layout closed) (fun o G' => Outcome.Sound (G'.quality closed) o) G

/-- Evaluation at any depth keeps the contract. -/
theorem Limits.behaves (closed : Prop) (l : Limits) : l.evaluator.Behaves (placed closed) :=
  Evaluator.atDepth_behaves (placed_lawful closed) (placed_ignoresModules closed).loadsSafely l.loop l.depth

/-- A program in place is allowed to run. -/
theorem Layout.allows_block (l : Limits) {b : Code.Block} (h : ctx.Fits closed G b.mentions) :
    G.Allows closed (l.evaluator.evalBlock b ctx).run :=
  ((l.behaves closed).evalBlock h).outcome

/-- Work that is in place is allowed. -/
theorem Evaluator.evalWork_allows (l : Limits) {work : Work} (h : work.Fits closed G) :
    G.Allows closed (l.evaluator.evalWork work) := by
  refine (l.behaves closed).evalWork (s := G) ?_
  cases work with
  | form form ctx wiring => exact h
  | job p ctx id => exact h
  | gather side c k ctx => exact h

end DualShell
