import DualShell.Proofs.Assigned.Contract
import DualShell.Proofs.Eval.Conduct

/-!
# Variables and operands of straight code

Variables and operands do to the frame what their touches say. Nothing has to be known about how deep evaluation goes:
an evaluator whose parts do what their touches say (`Evaluator.Finds`) evaluates operands that do.
-/

namespace DualShell

open Eval

variable {ctx : Context}

/-! ## Variables -/

/-- Cells taken along, fixed variables and members of namespaces are not in the frame. -/
theorem ask_elsewhere {r : Request} {f : FrameId} {P : r.Response → Prop} (hneeds : ∀ s : Bindings, s.Needs r)
    (htells : ∀ (s s' : Bindings) x, s.Tells r x s' → s.Le s' ∧ P x) : (ask r).Does f [] P :=
  .ofAside fun s => .ask (D := finding) (hneeds s) fun x s' hx => htells s s' x hx

namespace Ref

/-- A cell that was taken along is had without a look at the frame. -/
theorem cell_captured (level : Nat) (name : String) (access : Access) :
    ((@Ref.captured level name).cell ctx access).Does ctx.frame [] fun _ => True := by
  unfold cell
  refine .after (P := fun _ => True) (ask_elsewhere (fun _ => trivial) fun _ _ _ hx => ⟨hx.1, trivial⟩) fun x _ => ?_
  split
  · exact .pure trivial
  · exact .fail trivial

/-- To read a cell touches no name. -/
theorem load_does {f : FrameId} (c : CellId) : (ask (.load c)).Does f [] (Value.Sound coveredBodies) :=
  .askPlain trivial trivial

/-- A variable is read where it is bound. -/
theorem read_does : (ref : Ref) → (ref.read ctx).Does ctx.frame ref.finds (Value.Sound coveredBodies)
  | .local name => by
    unfold read cell
    exact .bind (ask_find (.inl rfl)) fun c _ => load_does c
  | @Ref.captured level name => by
    unfold read
    exact .after (cell_captured level name .read) fun c _ => load_does c
  | .builtin name => by
    unfold read
    have hask : (ask (.fixed name)).Does ctx.frame [] (Request.Answered coveredBodies (.fixed name)) :=
      ask_elsewhere (fun _ => trivial) fun _ _ _ hx => hx
    refine hask.after fun x hx => ?_
    split
    · exact .pure (hx _ rfl)
    · exact .fail trivial
  | .env name => by
    unfold read
    exact .after (.askPlain trivial trivial) fun _ _ => .pure (.string _)
  | .member ns name => by
    unfold read
    refine .before (read_does ns) fun v _ => ?_
    split
    · refine .after (P := fun _ => True) (ask_elsewhere (fun _ => trivial) fun _ _ _ hx => ⟨hx.1, trivial⟩) fun x _ => ?_
      split
      · exact load_does _
      · exact .fail trivial
    · exact .fail trivial

/-- The cell of a variable that gets a value. -/
theorem cell_write (ref : Ref) : (ref.cell ctx .write).Does ctx.frame ref.sets fun _ => True := by
  cases ref with
  | «local» name =>
    unfold cell
    exact ask_bind
  | captured name => exact cell_captured _ name .write
  | member ns name => exact .stray
  | builtin name | env name =>
    unfold cell
    exact .fail trivial

/-- The cell of a variable that is indexed into. -/
theorem cell_edit (ref : Ref) : (ref.cell ctx .edit).Does ctx.frame ref.changes fun _ => True := by
  cases ref with
  | «local» name =>
    unfold cell
    exact ask_find (.inr rfl)
  | captured name => exact cell_captured _ name .edit
  | member ns name => exact .stray
  | builtin name | env name =>
    unfold cell
    exact .fail trivial

/-- A variable is bound by giving it a value. -/
theorem write_does (ref : Ref) {v : Value} (hv : v.Sound coveredBodies) :
    (ref.write ctx v).Does ctx.frame ref.sets fun _ => True := by
  unfold write
  split
  · rename_i name
    refine .after (.ofPlain (.expectString _ _)) fun text _ => ?_
    exact .ofHarmless (.ask (r := .setEnv ctx.kernel name text) trivial fun _ => trivial)
  · exact (cell_write _).before fun c _ => .askPlain (r := .store c v) trivial hv

/-- An element is changed where its variable is bound. -/
theorem edit_does (ref : Ref) {change : Edit} (hc : change.Sound coveredBodies) :
    (ref.edit ctx change).Does ctx.frame ref.changes fun _ => True :=
  (cell_edit ref).before fun c _ => .after (.askPlain (r := .edit c change) trivial hc) fun _ hx => .ofPlain hx

end Ref

/-! ## Closures -/

/-- A closure takes along what is bound, and perhaps the function that is being defined. -/
theorem takeAlong_finds (defined : Option String) : (caps : List Capture) → ∀ {s : Bindings}, s.made ctx.frame →
    (∀ c ∈ caps, c.source = .local → s.has ctx.frame c.name ∨ defined = some c.name) →
    (takeAlong defined ctx caps).Safe finding.aside anything s
  | [], _, _, _ => .pure trivial
  | ⟨name, source⟩ :: caps, s, hmade, h => by
    have hrest : ∀ cell s', finding.Later s s' →
        Safe finding.aside anything (do return (name, cell) :: (← takeAlong defined ctx caps)) s' := by
      intro cell s' hs
      refine (takeAlong_finds defined caps (hs.made _ hmade) fun c hc hlocal => ?_).andThen fun _ _ _ => .pure trivial
      exact (h c (List.mem_cons_of_mem _ hc) hlocal).imp_left (hs.has _ _)
    cases source with
    | «local» =>
      have hcell : (ask (.cell ctx.frame name (.capture defined))).Safe finding.aside anything s :=
        .ask (D := finding) ⟨hmade, h _ List.mem_cons_self rfl⟩ fun _ _ hx => ⟨hx.1, trivial⟩
      exact hcell.andThen fun cell s' hs => hrest cell s' hs
    | @captured level =>
      have htaken : (ask (.taken ctx.frame ctx.captures name level (.capture defined))).Safe finding.aside anything s :=
        .ask (D := finding) trivial fun _ _ hx => ⟨hx.1, trivial⟩
      unfold takeAlong
      refine htaken.andThen fun x s' hs => ?_
      dsimp only
      split
      · exact hrest _ s' hs
      · exact Safe.bind (P := fun _ _ => False) (.fail trivial) fun _ _ _ h => h.elim

/-- A closure has a covered body. -/
theorem Code.Lambda.close_does (op : Code.Lambda) (defined : Option String) :
    (op.close defined ctx).Does ctx.frame [.make op defined] (Value.Sound coveredBodies) := by
  intro held s hc hs
  cases hc with
  | make takes body _ =>
    have hclose : (op.close defined ctx).Safe finding.aside (fun v s' => v.Sound coveredBodies ∧ finding.Later s s') s := by
      unfold Code.Lambda.close
      refine (takeAlong_finds defined op.captures hs.made fun c hcap hlocal => ?_).andThen fun cells s' hs' => ?_
      · exact (takes c hcap hlocal).imp_left (hs.has _)
      · exact Safe.andThen (Safe.ask_plain trivial trivial) fun identity s'' hs'' => .pure ⟨.closure body, hs'.trans hs''⟩
    exact (hclose.widen fun s' hs' => (within ctx.frame).of_later hs').mono fun v s' _ hv => ⟨hv.1, hs.mono hv.2⟩

/-! ## Operands -/

/-- Evaluation of parts that do what their touches say. -/
structure Evaluator.Finds (e : Evaluator) : Prop where
  block : ∀ b ctx, (e.block b ctx).Does ctx.frame b.touches fun _ => True
  form : ∀ form ctx wiring, (e.form form ctx wiring).Does ctx.frame form.touches fun _ => True
  operand : ∀ op ctx, (e.operand op ctx).Does ctx.frame op.touches (Value.AllSound coveredBodies)
  call : ∀ ctx s, e.CallsSafe finding.aside ctx s

namespace Evaluator.Finds

variable {e : Evaluator} (he : e.Finds)
include he

/-- Operands touch what they say, one after another. -/
theorem all : (ops : List Code.Operand) →
    (e.all ctx ops).Does ctx.frame (Code.operandsTouches ops) (Value.AllSound coveredBodies)
  | [] => .pure (List.forall_mem_nil _)
  | op :: ops => .bind (he.operand op ctx) fun _ hvs => .map (all ops) fun _ hws => List.forall_mem_append.2 ⟨hvs, hws⟩

/-- An operand that is to have one value touches what it says. -/
theorem single (op : Code.Operand) (what : String) :
    (e.single op ctx what).Does ctx.frame op.touches (Value.Sound coveredBodies) := by
  refine .before (he.operand op ctx) fun vs hvs => ?_
  split
  · exact .pure (hvs _ (List.mem_singleton_self _))
  · exact .fail trivial

theorem keys : (ops : List Code.Operand) →
    (e.keys ctx ops).Does ctx.frame (Code.operandsTouches ops) (Value.AllSound coveredBodies)
  | [] => .pure (List.forall_mem_nil _)
  | op :: ops => .bind (he.single op _) fun _ hk => .map (keys ops) fun _ hks => List.forall_mem_cons.2 ⟨hk, hks⟩

theorem compound : (parts : List Code.Operand) → ∀ words : List String,
    (e.compound ctx words parts).Does ctx.frame (Code.operandsTouches parts) fun _ => True
  | [], _ => .pure trivial
  | part :: parts, _ =>
    .bind (he.operand part ctx) fun _ _ => .after (.ofPlain (.joinWords _ _)) fun words _ => compound parts words

/-- The keys and values of a map touch what they say, in turns. -/
theorem pairs : (ps : List (Code.Operand × Code.Operand)) → (e.pairs ctx ps).Does ctx.frame (Code.pairsTouches ps)
    fun ps => ∀ p ∈ ps, p.1.Sound coveredBodies ∧ p.2.Sound coveredBodies
  | [] => .pure (List.forall_mem_nil _)
  | (k, v) :: ps => .bind (he.single k _) fun _ hk => .bind (he.single v _) fun _ hv =>
    .map (pairs ps) fun _ hps => List.forall_mem_cons.2 ⟨⟨hk, hv⟩, hps⟩

/-- A capture starts two tasks that only take its output. -/
theorem capture (body : Code.Block) : (e.capture body ctx).Does ctx.frame body.touches (Value.AllSound coveredBodies) := by
  have gathers (side : Side) (c : ChannelId) (k : CollectorId) : (ask (.spawn (.gather side c k ctx))).Does ctx.frame []
    fun _ => True :=
    ask_elsewhere (fun _ => trivial) fun _ _ _ hx => ⟨hx.1, trivial⟩
  unfold Evaluator.capture
  refine .after (.askPlain trivial trivial) fun c _ => ?_
  refine .after (.askPlain trivial trivial) fun k _ => ?_
  refine .after (gathers .values c k) fun values _ => ?_
  refine .after (gathers .bytes c k) fun lines _ => ?_
  let inner := ctx.withDescriptors (ctx.descriptors.set 1 (some (.writing (.channel c))))
  have hbody : (e.block body inner).Does ctx.frame body.touches fun _ => True := he.block body inner
  refine .attempt hbody (fun _ _ => ?_) fun ex s hex => ?_
  · exact .ofAside fun s => (captured_safe (D := finding) c k values lines (.ok ()) trivial).mono fun _ _ _ h => h.2
  · have hfailed := captured_safe (D := finding) (s := s) c k values lines (.error ex) hex
    exact (hfailed.widen fun s' => (within ctx.frame).of_later).mono fun _ _ _ h => nomatch h.1

/-- Operands do what their touches say and yield sound values. -/
theorem evalOperand (op : Code.Operand) (ctx : Context) :
    (e.evalOperand op ctx).Does ctx.frame op.touches (Value.AllSound coveredBodies) := by
  have one {v : Value} (hv : v.Sound coveredBodies) : Value.AllSound coveredBodies [v] := List.forall_mem_singleton.2 hv
  have strings (texts : List String) : Value.AllSound coveredBodies (texts.map .string) := by
    intro v hv
    obtain ⟨text, -, rfl⟩ := List.mem_map.1 hv
    exact .string _
  cases op with
  | literal text => exact .pure (one (.string _))
  | var ref explode =>
    refine .before ref.read_does fun v hv => ?_
    split
    · split
      · exact .pure hv.of_list
      · exact .fail trivial
    · exact .pure (one hv)
  | index base indices =>
    refine .bind (he.single base _) fun v hv => .before (he.keys indices) fun ks _ => ?_
    refine .after (.ofExcept (hv.indexAll ks)) fun v hv => ?_
    exact .map (.askPlain (r := .adopt v) trivial hv) fun v hv => one hv
  | list items => exact .map (he.all items) fun vs hvs => one (.list hvs)
  | map ps => exact .map (he.pairs ps) fun ps hps => one (.mapOf hps)
  | lambda op => exact .map (op.close_does none) fun v hv => one hv
  | capture body => exact he.capture body
  | rescue body => exact .stray
  | compound parts => exact .map (he.compound parts _) fun words _ => strings _
  | wildcard pattern mayMiss =>
    refine .after (.askPlain trivial trivial) fun x _ => ?_
    split
    · exact .fail trivial
    · split
      · exact .fail trivial
      · exact .pure (strings _)

end Evaluator.Finds

end DualShell
