import DualShell.Machine.Perform
import DualShell.Proofs.Machine.Discipline
import DualShell.Proofs.Scope.Mention

/-!
# Where variables live

A `Layout` records what is promised about the frames and cells made so far: the home of each frame, the frame and the
name for which each cell was made, the names a frame may bind, and the members that lookups did not find. Promises are
only ever added. Relative to a layout, a closure sits right if each cell it took along was made for the frame that
resolution found, counted outwards along homes (`Closure.Sits`), and a piece of code is in place if what it mentions is
there (`Mention.Holds`). The contract `layout` asks code to be in place and hands it what it needs to stay so.

Values that come from outside may hold anything. `closed` says that none do; where it is false, nothing is promised of
closures.
-/

namespace DualShell

/-- What is promised about frames and cells. -/
structure Layout where
  /-- The home of a frame, if the frame exists. -/
  home : FrameId → Option (Option FrameId)
  /-- The frame and the name that a cell was made for. -/
  slot : CellId → Option (FrameId × String)
  /-- The names that a frame may bind. -/
  binds : FrameId → String → Prop
  /-- The members that were looked for in vain. -/
  missing : String → Prop

namespace Layout

/-- The second layout promises all that the first one does. -/
structure Le (G G' : Layout) : Prop where
  home : ∀ f h, G.home f = some h → G'.home f = some h
  slot : ∀ c s, G.slot c = some s → G'.slot c = some s
  binds : ∀ f n, G.binds f n → G'.binds f n
  missing : ∀ n, G.missing n → G'.missing n

theorem Le.refl (G : Layout) : G.Le G := ⟨fun _ _ => id, fun _ _ => id, fun _ _ => id, fun _ => id⟩

theorem Le.trans {G G' G'' : Layout} (h : G.Le G') (h' : G'.Le G'') : G.Le G'' where
  home f n hf := h'.home f n (h.home f n hf)
  slot c s hc := h'.slot c s (h.slot c s hc)
  binds f n hn := h'.binds f n (h.binds f n hn)
  missing n hn := h'.missing n (h.missing n hn)

/-- The frame a number of homes out. -/
def ancestor? (G : Layout) (f : FrameId) : Nat → Option FrameId
  | 0 => some f
  | level + 1 =>
    match G.home f with
    | some (some h) => G.ancestor? h level
    | _ => none

/-- Frames stand one within another as they did. -/
theorem Le.ancestor? {G G' : Layout} (h : G.Le G') {f g : FrameId} {level : Nat} (hg : G.ancestor? f level = some g) :
    G'.ancestor? f level = some g := by
  induction level generalizing f with
  | zero => exact hg
  | succ level ih =>
    unfold Layout.ancestor? at hg ⊢
    split at hg
    · rename_i hhome
      rw [h.home f _ hhome]
      exact ih hg
    · nomatch hg

/-- A cell among those taken along was made for a name of the frame so many homes out. -/
def Reaches (G : Layout) (f : FrameId) (captures : List (String × CellId)) (name : String) (level : Nat) : Prop :=
  ∃ c g, takenCell? captures name = some c ∧ G.ancestor? f level = some g ∧ G.slot c = some (g, name)

/-- What could be taken along still can. -/
theorem Le.reaches {G G' : Layout} (h : G.Le G') {f : FrameId} {captures : List (String × CellId)} {name : String}
    {level : Nat} (hr : G.Reaches f captures name level) : G'.Reaches f captures name level := by
  obtain ⟨c, g, hc, hg, hs⟩ := hr
  exact ⟨c, g, hc, h.ancestor? hg, h.slot _ _ hs⟩

end Layout

/-- A closure has its lambdas in order, and each cell it took along was made for the frame that resolution found. -/
structure Closure.Sits (G : Layout) (c : Closure) : Prop where
  linked : c.op.Linked
  taken : ∀ cap ∈ c.op.captures, G.Reaches c.home c.captures cap.name cap.source.level

/-- A closure sits where it sat. -/
theorem Closure.Sits.mono {G G' : Layout} (h : G.Le G') {c : Closure} (hc : c.Sits G) : c.Sits G' :=
  ⟨hc.linked, fun cap hcap => h.reaches (hc.taken cap hcap)⟩

/-- What may be found in values: closures that sit right, and failed lookups of members that were missing. -/
def Layout.quality (closed : Prop) (G : Layout) : Quality where
  closure c := closed → c.Sits G
  missing n := closed → G.missing n

/-- What is sound in a layout is sound in a later one. -/
theorem Layout.Le.quality {closed : Prop} {G G' : Layout} (h : G.Le G') : (G.quality closed).Le (G'.quality closed) :=
  ⟨fun _ hc hclosed => (hc hclosed).mono h, fun n hn hclosed => h.missing n (hn hclosed)⟩

/-- What a piece of code mentions is there for an activation with a frame and cells taken along. -/
def Mention.Holds (closed : Prop) (G : Layout) (f : FrameId) (captures : List (String × CellId)) : Mention → Prop
  | .local name => G.binds f name
  | .taken name level => closed → 0 < level ∧ G.Reaches f captures name level
  | .fixed name => closed → isFixedVariable name = true
  | .drop _ => True
  | .change _ => True
  | .make op => closed → op.Linked

/-- Code with the given mentions is in place. -/
def Context.Fits (closed : Prop) (G : Layout) (ctx : Context) (ms : List Mention) : Prop :=
  ∀ m ∈ ms, m.Holds closed G ctx.frame ctx.captures

namespace Context.Fits

variable {closed : Prop} {G G' : Layout} {ctx : Context} {ms ns : List Mention}

/-- A context fits in a later layout. -/
theorem mono (h : G.Le G') (hf : ctx.Fits closed G ms) : ctx.Fits closed G' ms := by
  intro m hm
  have := hf m hm
  cases m with
  | «local» name => exact h.binds _ _ this
  | taken name level => exact fun hc => ⟨(this hc).1, h.reaches (this hc).2⟩
  | fixed name => exact this
  | drop name => trivial
  | change ref => trivial
  | make op => exact this

/-- A context that fits more mentions fits fewer. -/
theorem sub (hf : ctx.Fits closed G ms) (h : ns ⊆ ms) : ctx.Fits closed G ns := fun m hm => hf m (h hm)

theorem left (hf : ctx.Fits closed G (ms ++ ns)) : ctx.Fits closed G ms := hf.sub (List.subset_append_left _ _)

theorem right (hf : ctx.Fits closed G (ms ++ ns)) : ctx.Fits closed G ns := hf.sub (List.subset_append_right _ _)

/-- Only the frame and the cells taken along count. -/
theorem withDescriptors (hf : ctx.Fits closed G ms) (descriptors : Descriptors) :
    (ctx.withDescriptors descriptors).Fits closed G ms := hf

end Context.Fits

/-- Work to be started is in place. -/
def Work.Fits (closed : Prop) (G : Layout) : Work → Prop
  | .form code ctx _ => ctx.Fits closed G code.mentions
  | .job p ctx _ => ctx.Fits closed G p.mentions
  | .gather _ _ _ ctx => ctx.Fits closed G []

/-- Work fits in a later layout. -/
theorem Work.Fits.mono {closed : Prop} {G G' : Layout} (h : G.Le G') {work : Work} (hw : work.Fits closed G) :
    work.Fits closed G' := by
  cases work with
  | form code ctx wiring => exact Context.Fits.mono h hw
  | job p ctx id => exact Context.Fits.mono h hw
  | gather side c k ctx => exact Context.Fits.mono h hw

namespace Layout

/-- What has to hold when a request is made. -/
def Needs (closed : Prop) (G : Layout) : Request → Prop
  | .cell f name _ => G.binds f name
  | .taken f captures name level _ => closed → 0 < level ∧ G.Reaches f captures name level
  | .fixed name => closed → isFixedVariable name = true
  | .startJob p ctx => ctx.Fits closed G p.mentions
  | .spawn work => work.Fits closed G
  | r => r.Sound (G.quality closed)

/-- What an answer says about frames and cells. -/
def Says (G : Layout) : (r : Request) → r.Response → Prop
  | .cell f name _, c => G.slot c = some (f, name)
  | .taken _ captures name _ _, x => x = takenCell? captures name
  | .fixed name, x => x = fixedValue? name
  | .member _ qualifier name, x => x = (none : Option CellId) → G.missing (qualifier ++ name)
  | .activate home _ _, f => G.home f = some home ∧ ∀ name, G.binds f name
  | _, _ => True

end Layout

/-- The contract of code that is in place. -/
def layout (closed : Prop) : Discipline where
  State := Layout
  Later := Layout.Le
  quality := Layout.quality closed
  Needs := Layout.Needs closed
  Tells G r x G' := G.Le G' ∧ r.Answered (G'.quality closed) x ∧ G'.Says r x
  refl := Layout.Le.refl
  trans := Layout.Le.trans
  quality_mono := Layout.Le.quality
  needs_plain {s r} hp hs := by cases r <;> first | exact hs | exact hp.elim
  later_of_tells _ h := h.1
  answered_of_tells _ h := h.2.1

end DualShell
