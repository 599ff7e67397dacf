import DualShell.Proofs.Eval.Run
import DualShell.Proofs.Machine.Frames
import DualShell.Proofs.Machine.History

/-!
# Protocols

A protocol is a contract with one task at a time. Which requests a task may make depends on nothing but its own requests
and answers so far, so the state of a task can be read off the deeds, whatever other tasks did meanwhile
(`Protocol.stateOf`). If the evaluator keeps to a protocol step by step (`Protocol.Lawful`), then all tasks of a history
have kept to it all along (`History.follows`): each request that was ever answered was made where the protocol allows it
(`History.conforms`).
-/

namespace DualShell

open Eval

/-! ## Work that is started -/

/-- The surroundings in which work runs. -/
def Work.ctx : Work → Context
  | .form _ ctx _ => ctx
  | .job _ ctx _ => ctx
  | .gather _ _ _ ctx => ctx

/-- What the code of work mentions. -/
def Work.mentions : Work → List Mention
  | .form code _ _ => code.mentions
  | .job p _ _ => p.mentions
  | .gather .. => []

/-- Work that a request starts beside the task that makes it. -/
def Request.Begins : Request → Work → Prop
  | .spawn started, work => work = started
  | .startJob p ctx, work => ∃ id, work = .job p ctx id
  | _, _ => False

/-- The chain of imports of the surroundings that a task is begun in. -/
def Deed.begins? (who : TaskId) : Deed → Option (List String)
  | .answered _ w (.spawn work) _ _ => if w.nextTask = who then some work.ctx.imports else none
  | .answered _ w (.startJob _ ctx) _ _ => if w.nextTask = who then some ctx.imports else none
  | _ => none

/-- Only an answer begins a task, the next one. -/
theorem Deed.begins?_eq_none {who : TaskId} {d : Deed}
    (h : ∀ actor w r x w', d = .answered actor w r x w' → w.nextTask ≠ who) : d.begins? who = none := by
  cases d with
  | answered actor w r x w' =>
    cases r with
    | spawn | startJob => exact if_neg (h _ _ _ _ _ rfl)
    | _ => rfl
  | _ => rfl

/-- A request that begins no work begins no task. -/
theorem Deed.begins?_of_not {who actor : TaskId} {w w' : World} {r : Request} {x : r.Response} (h : ∀ work, ¬r.Begins work) :
    (Deed.answered actor w r x w').begins? who = none := by
  cases r with
  | spawn work => exact absurd rfl (h work)
  | startJob p ctx => exact absurd ⟨0, rfl⟩ (h (.job p ctx 0))
  | _ => rfl

/-- A request that begins work begins the next task. -/
theorem Deed.begins?_of_begins {actor : TaskId} {w w' : World} {r : Request} {x : r.Response} {work : Work}
    (h : r.Begins work) : (Deed.answered actor w r x w').begins? w.nextTask = some work.ctx.imports := by
  cases r with
  | spawn started =>
    cases h
    exact if_pos rfl
  | startJob p ctx =>
    obtain ⟨id, rfl⟩ := h
    exact if_pos rfl
  | _ => exact h.elim

/-- Work may be begun where its surroundings suit what it mentions. -/
theorem Work.suits_iff {D : Discipline} {P : Placement D} {s : D.State} {work : Work} :
    work.Suits P s ↔ work.ctx.Suits P s work.mentions := by
  cases work <;> exact Iff.rfl

/-- A request starts one piece of work under the next number, or none. -/
theorem World.perform_begins (w : World) (who : TaskId) (r : Request) :
    ((∀ work, ¬r.Begins work) ∧ (w.perform who r).2.nextTask = w.nextTask ∧ (w.perform who r).2.spawned = w.spawned) ∨
      ∃ work, r.Begins work ∧ (w.perform who r).2.nextTask = w.nextTask + 1 ∧
        (w.perform who r).2.spawned = w.spawned ++ [(w.nextTask, work)] := by
  by_cases hquiet : r.LeavesFrames ∧ ¬r.ConcernsPlace
  · have hsame := World.Quiet.perform w who hquiet.1 hquiet.2
    refine .inl ⟨fun work hb => ?_, hsame.nextTask, hsame.spawned⟩
    cases r <;> first | exact hb.elim | exact hquiet.1.elim
  · cases r with
    | spawn work => exact .inr ⟨work, rfl, rfl, rfl⟩
    | startJob p ctx => exact .inr ⟨_, ⟨_, rfl⟩, rfl, rfl⟩
    | claimModule key place =>
      simp only [World.perform]
      split <;> exact .inl ⟨fun _ => id, rfl, rfl⟩
    | cell | unbind | taken | fixed | member | activate | findModule | settleModule => exact .inl ⟨fun _ => id, rfl, rfl⟩
    | _ => exact absurd ⟨trivial, id⟩ hquiet

/-! ## Contracts with a task -/

/-- A cell is wanted to change what it holds. -/
def Access.Changes : Access → Prop
  | .write | .edit => True
  | _ => False

/-- Requests that look for values, forget names, start work, or have to do with neither variables nor modules. -/
def Request.IsCommon : Request → Prop
  | .cell _ _ access => ¬access.Changes
  | .taken _ _ _ _ access => ¬access.Changes
  | .unbind .. | .fixed .. | .member .. | .startJob .. | .spawn .. => True
  | r => r.IsPlain

/-- Requests that find a cell, or change what it holds. -/
def Request.ConcernsCell : Request → Prop
  | .cell .. | .taken .. | .store .. | .edit .. => True
  | _ => False

/-- Plain requests are common ones. -/
theorem Request.IsPlain.isCommon {r : Request} (h : r.IsPlain) : r.IsCommon := by
  cases r <;> first | exact h | exact h.elim

/-- A contract with a task. -/
structure Protocol where
  /-- What the requests of a task have come to so far. -/
  State : Type
  /-- Where a task starts, by the chain of imports of the surroundings it runs in. -/
  start : List String → State
  /-- The closures that values may hold. -/
  closure : Closure → Prop
  /-- What has to have come before a request. -/
  Needs : State → Request → Prop
  after : State → (r : Request) → r.Response → State
  /-- What the answers of the machine tell. -/
  Told : (r : Request) → r.Response → Prop
  /-- Code with the mentions may run in the surroundings. -/
  Admits : State → Context → List Mention → Prop
  needs_common : ∀ {s r}, r.IsCommon → Needs s r
  after_common : ∀ {s r} (x : r.Response), r.IsCommon → after s r x = s
  sub : ∀ {s ctx ms ns}, Admits s ctx ms → ns ⊆ ms → Admits s ctx ns
  withDescriptors : ∀ {s ctx ms}, Admits s ctx ms → ∀ ds, Admits s (ctx.withDescriptors ds) ms

namespace Protocol

variable (P : Protocol)

/-- What may be found in values. -/
def quality : Quality := ⟨P.closure, fun _ => True⟩

/-- The protocol as a discipline: nothing moves the state of a task but the task itself. -/
def discipline : Discipline where
  State := P.State
  Later := Eq
  quality _ := P.quality
  Needs s r := r.Sound P.quality ∧ P.Needs s r ∧
    ∀ work, r.Begins work → P.Admits s work.ctx work.mentions ∧ P.Admits (P.start work.ctx.imports) work.ctx work.mentions
  Tells s r x s' := s' = P.after s r x ∧ r.Answered P.quality x ∧ P.Told r x
  refl _ := rfl
  trans := Eq.trans
  quality_mono _ := .refl _
  needs_plain {_ r} hp hs :=
    ⟨hs, P.needs_common hp.isCommon, fun work hb => by cases r <;> first | exact hp.elim | exact hb.elim⟩
  later_of_tells hp hx := (hx.1.trans (P.after_common _ hp.isCommon)).symm
  answered_of_tells _ hx := hx.2.1

/-- Code runs where the protocol admits it. -/
def placement : Placement P.discipline where
  Admits := P.Admits
  later hs h := Eq.subst (motive := fun s => P.Admits s _ _) hs h
  sub := P.sub
  withDescriptors := P.withDescriptors

variable {P} in
/-- A context suits what it is admitted to mention. -/
theorem suits_iff {s : P.State} {ctx : Context} {ms : List Mention} : ctx.Suits P.placement s ms ↔ P.Admits s ctx ms :=
  Iff.rfl

/-- All requests of a task are allowed from here on, and it ends soundly. -/
def Allows (s : P.State) (t : Task Outcome) : Prop := t.Keeps P.discipline (fun o _ => Outcome.Sound P.quality o) s

/-- The steps of evaluation keep to the protocol. -/
structure Lawful : Prop where
  /-- Code may run in a task of its own where it may run at all. -/
  restart : ∀ {s : P.State} {ctx : Context} {ms : List Mention}, P.Admits s ctx ms → P.Admits (P.start ctx.imports) ctx ms
  closes : ∀ {s : P.State} {ctx : Context} {c : Closure}, P.Admits s ctx c.op.mentions → P.closure c
  enter : ∀ {s : P.State} {ctx : Context} {c : Closure} (f : FrameId), P.Admits s ctx [] → P.closure c →
    P.Admits s (ctx.enter f c.captures) c.op.body.mentions
  activate : ∀ {s : P.State} {ctx : Context} (home : FrameId) (vars : List (String × Value)), P.Admits s ctx [] →
    P.Needs s (.activate (some home) vars ctx.imports) ∧
    ∀ f : FrameId, P.after s (.activate (some home) vars ctx.imports) f = s
  write : ∀ {s : P.State} {ctx : Context} (ref : Ref) {v : Value}, P.Admits s ctx ref.changeMentions → v.Sound P.quality →
    (ref.write ctx v).Safe P.discipline.aside anything s
  edit : ∀ {s : P.State} {ctx : Context} (ref : Ref) {change : Edit}, P.Admits s ctx ref.changeMentions →
    change.Sound P.quality → (ref.edit ctx change).Safe P.discipline.aside anything s
  loads : P.placement.LoadsSafely
  /-- A program may run at the top level it was resolved for. -/
  program : ∀ {chunk : Source.Chunk} {src : String} {names : List String} {block : Code.Block} {scope : Scope}
    {ctx : Context},
    chunk.compile src (.ofGlobals names) = (.ok block, scope) → ctx.imports = [] → P.Admits (P.start []) ctx block.mentions

variable {P} {s : P.State} {ctx : Context}

/-- A common request moves nothing. -/
theorem ask_common {r : Request} (hr : r.IsCommon) (hs : r.Sound P.quality)
    (hbegins : ∀ work, r.Begins work → P.Admits s work.ctx work.mentions ∧
      P.Admits (P.start work.ctx.imports) work.ctx work.mentions) :
    (ask r).Safe P.discipline.aside (fun x _ => r.Answered P.quality x) s :=
  .ask (D := P.discipline) ⟨hs, P.needs_common hr, hbegins⟩ fun _ _ hx => ⟨(hx.1.trans (P.after_common _ hr)).symm, hx.2.1⟩

/-- To look for a cell that is not to be changed is safe. -/
theorem ask_cell {f : FrameId} {name : String} {access : Access} (h : ¬access.Changes) :
    (ask (.cell f name access)).Safe P.discipline.aside anything s :=
  (ask_common (r := .cell f name access) h trivial fun _ hb => hb.elim).trivially

/-- To look for a cell that was taken along, and is not to be changed, is safe. -/
theorem ask_taken {f : FrameId} {captures : List (String × CellId)} {name : String} {level : Nat} {access : Access}
    (h : ¬access.Changes) : (ask (.taken f captures name level access)).Safe P.discipline.aside anything s :=
  (ask_common (r := .taken f captures name level access) h trivial fun _ hb => hb.elim).trivially

/-- To read a variable is safe, and yields a sound value. -/
theorem read_safe : (ref : Ref) → ∀ {s : P.State}, (ref.read ctx).Safe P.discipline.aside P.discipline.soundValue s
  | .builtin name, s => by
    unfold Ref.read
    refine Safe.bind (ask_common (r := .fixed name) trivial trivial fun _ hb => hb.elim) fun x s' _ hx => ?_
    split
    · exact .pure (hx _ rfl)
    · exact .fail trivial
  | .env name, s => by
    unfold Ref.read
    exact Safe.andThen (Safe.ask_plain trivial trivial) fun _ _ _ => .pure (.string _)
  | .local name, s => by
    unfold Ref.read Ref.cell
    exact Safe.andThen (ask_cell id) fun c s' _ => .ask_plain trivial trivial
  | @Ref.captured level name, s => by
    unfold Ref.read Ref.cell
    refine Safe.andThen (Q := anything) (Safe.andThen (ask_taken id) fun x s' _ => ?_) fun c s' _ =>
      .ask_plain trivial trivial
    split
    · exact .pure trivial
    · exact .fail trivial
  | .member ns name, s => by
    unfold Ref.read
    refine (read_safe ns).andThen fun v s' _ => ?_
    split
    · refine Safe.andThen (ask_common (r := .member _ _ _) trivial trivial fun _ hb => hb.elim) fun x s'' _ => ?_
      split
      · exact .ask_plain trivial trivial
      · exact .fail trivial
    · exact .fail trivial

/-- To look at what a variable holds is safe, and yields a sound value. -/
theorem peek_safe (ref : Ref) : (ref.peek ctx).Safe P.discipline.aside (fun o _ => ∀ v, o = some v →
      v.Sound P.quality) s := by
  unfold Ref.peek
  split
  · exact .ask_plain trivial trivial
  · refine Safe.andThen (Safe.ask_plain trivial trivial) fun o s' _ => .pure fun v hv => ?_
    obtain ⟨text, -, rfl⟩ := Option.map_eq_some_iff.1 hv
    exact .string _
  · exact (read_safe _).bind fun v s' _ hv => .pure fun v' hv' => by cases hv'; exact hv

/-- To take cells along is safe. -/
theorem takeAlong_safe (defined : Option String) : (caps : List Capture) → ∀ {s : P.State},
    (takeAlong defined ctx caps).Safe P.discipline.aside anything s
  | [], s => .pure trivial
  | ⟨name, .local⟩ :: caps, s => by
    unfold takeAlong
    exact Safe.andThen (ask_cell id) fun _ s' _ => (takeAlong_safe defined caps).andThen fun _ _ _ => .pure trivial
  | ⟨name, .captured⟩ :: caps, s => by
    unfold takeAlong
    refine Safe.andThen (ask_taken id) fun x s' _ => ?_
    split
    · exact (takeAlong_safe defined caps).andThen fun _ _ _ => .pure trivial
    · exact Safe.bind (P := fun _ _ => False) (.fail trivial) fun _ _ _ h => h.elim

/-- A contract that makes nothing of cells. -/
structure IgnoresCells (P : Protocol) : Prop where
  needs : ∀ s (r : Request), r.ConcernsCell → P.Needs s r
  after : ∀ s (r : Request) (x : r.Response), r.ConcernsCell → P.after s r x = s

namespace IgnoresCells

variable (hP : P.IgnoresCells)
include hP

/-- A request that concerns a cell is safe with sound values. -/
theorem ask_safe {r : Request} (hr : r.ConcernsCell) (hs : r.Sound P.quality) :
    (ask r).Safe P.discipline.aside (fun x _ => r.Answered P.quality x) s :=
  .ask (D := P.discipline) ⟨hs, hP.needs s r hr, fun work hb => by cases r <;> first | exact hr.elim | exact hb.elim⟩
    fun x _ hx => ⟨(hx.1.trans (hP.after s r x hr)).symm, hx.2.1⟩

/-- To reach the cell of a variable is safe. -/
theorem cell_safe (ref : Ref) (access : Access) : (ref.cell ctx access).Safe P.discipline.aside anything s := by
  unfold Ref.cell
  cases ref with
  | builtin name | env name => exact .fail trivial
  | «local» name => exact (hP.ask_safe (r := .cell ctx.frame name access) trivial trivial).trivially
  | @captured level name =>
    refine Safe.andThen (hP.ask_safe (r := .taken ctx.frame ctx.captures name level access) trivial trivial) fun x s' _ => ?_
    split
    · exact .pure trivial
    · exact .fail trivial
  | member ns name =>
    refine (read_safe ns).andThen fun v s' _ => ?_
    split
    · refine Safe.andThen (ask_common (r := .member _ _ _) trivial trivial fun _ hb => hb.elim) fun x s'' _ => ?_
      split
      · exact .pure trivial
      · exact .fail trivial
    · exact .fail trivial

/-- To write a sound value is safe. -/
theorem write_safe (ref : Ref) {v : Value} (hv : v.Sound P.quality) :
    (ref.write ctx v).Safe P.discipline.aside anything s := by
  unfold Ref.write
  split
  · rename_i name
    refine (Safe.ofPlain (.expectString v _)).andThen fun text s' _ => ?_
    have hset : (ask (.setEnv ctx.kernel name text)).Harmless P.discipline.aside := .ask trivial fun _ => trivial
    exact hset s'
  · refine (hP.cell_safe _ .write).andThen fun c s' _ => ?_
    exact Safe.trivially (hP.ask_safe (r := .store c v) trivial hv)

/-- To change a variable soundly is safe. -/
theorem edit_safe (ref : Ref) {change : Edit} (hc : change.Sound P.quality) :
    (ref.edit ctx change).Safe P.discipline.aside anything s := by
  unfold Ref.edit
  refine (hP.cell_safe ref .edit).andThen fun c s' _ => ?_
  exact (hP.ask_safe (r := .edit c change) trivial hc).bind fun x s'' _ hx => .ofPlain hx

end IgnoresCells

namespace Lawful

variable (hP : P.Lawful)
include hP

/-- A closure that is made of admitted code is sound. -/
theorem close_safe {op : Code.Lambda} (defined : Option String) (h : P.Admits s ctx op.mentions) :
    (op.close defined ctx).Safe P.discipline.aside P.discipline.soundValue s := by
  unfold Code.Lambda.close
  refine (takeAlong_safe defined op.captures).andThen fun cells s' _ => ?_
  exact Safe.andThen (Safe.ask_plain trivial trivial) fun identity s'' _ => .pure (.closure (hP.closes h))

/-- The body of a sound closure may run in a frame of its own. -/
theorem enter_safe {c : Closure} {vars : List (String × Value)} (h : P.Admits s ctx []) (hc : P.closure c)
    (hvars : OptionsSound P.quality vars) : (ask (.activate (some c.home) vars ctx.imports)).Safe P.discipline.aside
      (fun f s' => (ctx.enter f c.captures).Suits P.placement s' c.op.body.mentions) s := by
  obtain ⟨hneeds, hafter⟩ := hP.activate c.home vars h
  refine .ask (D := P.discipline) ⟨hvars, hneeds, fun _ hb => hb.elim⟩ fun f s' hx => ?_
  cases hx.1.trans (hafter f)
  exact ⟨rfl, hP.enter f h hc⟩

/-- The steps of evaluation are safe. -/
theorem placement_lawful : P.placement.Lawful where
  read ref _ := read_safe ref
  peek ref _ := peek_safe ref
  write ref _ h hv := hP.write ref h hv
  edit ref _ h hc := hP.edit ref h hc
  unbind _ _ := (ask_common (r := .unbind _ _) trivial trivial fun _ hb => hb.elim).trivially
  close defined h := hP.close_safe defined h
  enter h hc hvars := hP.enter_safe h hc hvars
  startJob {ctx s p} h := by
    refine (ask_common (r := .startJob p ctx) trivial trivial fun work hb => ?_).trivially
    obtain ⟨id, rfl⟩ := hb
    exact ⟨suits_iff.1 h, hP.restart (suits_iff.1 h)⟩
  spawn {ctx s form wiring} h := by
    refine (ask_common (r := .spawn (.form form ctx wiring)) trivial trivial fun work hb => ?_).trivially
    cases hb
    exact ⟨suits_iff.1 h, hP.restart (suits_iff.1 h)⟩
  gather {ctx s} side c k h := by
    refine (ask_common (r := .spawn (.gather side c k ctx)) trivial trivial fun work hb => ?_).trivially
    cases hb
    exact ⟨suits_iff.1 h, hP.restart (suits_iff.1 h)⟩

/-- All that the evaluator runs keeps to the protocol. -/
theorem behaves (l : Limits) : l.evaluator.Behaves P.placement :=
  Evaluator.atDepth_behaves hP.placement_lawful hP.loads l.loop l.depth

/-- A block that is admitted keeps the contract. -/
theorem allows_block (l : Limits) {b : Code.Block} (h : P.Admits s ctx b.mentions) :
    P.Allows s (l.evaluator.evalBlock b ctx).run :=
  ((hP.behaves l).evalBlock (suits_iff.2 h)).outcome

/-- Work that is admitted keeps the contract. -/
theorem allows_work (l : Limits) {work : Work} (h : P.Admits s work.ctx work.mentions) :
    P.Allows s (l.evaluator.evalWork work) :=
  (hP.behaves l).evalWork (Work.suits_iff.2 (suits_iff.2 h))

end Lawful

/-! ## States of tasks -/

variable (P)

/-- What a deed does to the state of a task. -/
def move (who : TaskId) (s : P.State) (d : Deed) : P.State :=
  match d.begins? who with
  | some imports => P.start imports
  | none =>
    match d with
    | .answered actor _ r x _ => if actor = who then P.after s r x else s
    | _ => s

/-- The state of a task after some deeds. -/
def stateOf (who : TaskId) (ds : List Deed) : P.State := ds.foldl (P.move who) (P.start [])

variable {P}

/-- The state of a task after one deed more is that before it, moved on by the deed. -/
theorem stateOf_concat (who : TaskId) (ds : List Deed) (d : Deed) :
    P.stateOf who (ds ++ [d]) = P.move who (P.stateOf who ds) d := by
  simp [stateOf]

/-- The deeds of the others do not count. -/
theorem move_others {who : TaskId} {s : P.State} {d : Deed} (h : ∀ w r x w', d ≠ .answered who w r x w')
    (hbegins : d.begins? who = none) : P.move who s d = s := by
  unfold move
  rw [hbegins]
  cases d with
  | answered actor w r x w' =>
    refine if_neg fun heq => ?_
    subst heq
    exact h w r x w' rfl
  | _ => rfl

/-- Deeds of others leave the state of a task, unless they begin it. -/
theorem stateOf_others {who : TaskId} {ds : List Deed} {d : Deed} (h : ∀ w r x w', d ≠ .answered who w r x w')
    (hbegins : d.begins? who = none) : P.stateOf who (ds ++ [d]) = P.stateOf who ds := by
  rw [stateOf_concat, move_others h hbegins]

/-- An answer moves the state of the task that asked. -/
theorem stateOf_answered (who : TaskId) (ds : List Deed) (w : World) (r : Request) (x : r.Response) (w' : World)
    (hbegins : (Deed.answered who w r x w').begins? who = none) :
    P.stateOf who (ds ++ [.answered who w r x w']) = P.after (P.stateOf who ds) r x := by
  rw [stateOf_concat, move, hbegins]
  exact if_pos rfl

/-- A task that was begun is where it starts. -/
theorem stateOf_begun {who : TaskId} {ds : List Deed} {d : Deed} {imports : List String}
    (hbegins : d.begins? who = some imports) : P.stateOf who (ds ++ [d]) = P.start imports := by
  rw [stateOf_concat]
  unfold move
  rw [hbegins]

/-- A task that has done nothing, and was not begun by another, is where programs start. -/
theorem stateOf_fresh {who : TaskId} {ds : List Deed} (h : ∀ w r x w', .answered who w r x w' ∉ ds)
    (hbegins : ∀ d ∈ ds, d.begins? who = none) : P.stateOf who ds = P.start [] := by
  suffices hfold : ∀ s, ds.foldl (P.move who) s = s from hfold (P.start [])
  induction ds with
  | nil => exact fun _ => rfl
  | cons d ds ih =>
    intro s
    have hd : P.move who s d = s :=
      move_others (fun w r x w' heq => h w r x w' (heq ▸ List.mem_cons_self)) (hbegins d List.mem_cons_self)
    rw [List.foldl_cons, hd]
    exact ih (fun w r x w' hmem => h w r x w' (List.mem_cons_of_mem _ hmem))
      (fun d' hd' => hbegins d' (List.mem_cons_of_mem _ hd')) s

end Protocol

/-! ## Numbers of tasks -/

/-- The numbers of the tasks, and of what is to become one. -/
def Pool.ids (p : Pool) : List TaskId := p.tasks.map (·.1) ++ p.world.spawned.map (·.1)

/-- No number is used twice, what has not been taken up has done nothing, and no number is that of a task to come. -/
structure Pool.Numbered (ds : List Deed) (p : Pool) : Prop where
  nodup : p.ids.Nodup
  lt : ∀ id ∈ p.ids, id < p.world.nextTask
  acted : ∀ who w r x w', .answered who w r x w' ∈ ds → who < p.world.nextTask ∧ who ∉ p.world.spawned.map (·.1)
  /-- Answers begin no tasks that are to come. -/
  begun : ∀ who, p.world.nextTask ≤ who → ∀ d ∈ ds, d.begins? who = none

namespace Pool.Numbered

variable {ds : List Deed} {p p' : Pool}

/-- Tasks go away. -/
theorem fewer (h : p.Numbered ds) (hids : p'.ids.Sublist p.ids) (hnext : p'.world.nextTask = p.world.nextTask)
    (hspawned : p'.world.spawned.map (·.1) ⊆ p.world.spawned.map (·.1)) : p'.Numbered ds where
  nodup := h.nodup.sublist hids
  lt id hid := hnext ▸ h.lt id (hids.subset hid)
  acted who w r x w' hd := ⟨hnext ▸ (h.acted who w r x w' hd).1, fun hmem => (h.acted who w r x w' hd).2 (hspawned hmem)⟩
  begun who hle := h.begun who (hnext ▸ hle)

/-- A task begins under the next number. -/
theorem more (h : p.Numbered ds) (hids : p'.ids.Perm (p.world.nextTask :: p.ids))
    (hnext : p'.world.nextTask = p.world.nextTask + 1)
    (hspawned : p'.world.spawned.map (·.1) ⊆ p.world.spawned.map (·.1) ++ [p.world.nextTask]) : p'.Numbered ds where
  nodup := hids.nodup_iff.2 (List.nodup_cons.2 ⟨fun hmem => Nat.lt_irrefl _ (h.lt _ hmem), h.nodup⟩)
  lt id hid := by
    rw [hnext]
    rcases List.mem_cons.1 (hids.subset hid) with rfl | hid
    · exact Nat.lt_succ_self _
    · exact Nat.lt_succ_of_lt (h.lt id hid)
  acted who w r x w' hd := by
    obtain ⟨hlt, hnot⟩ := h.acted who w r x w' hd
    refine ⟨hnext ▸ Nat.lt_succ_of_lt hlt, fun hmem => ?_⟩
    rcases List.mem_append.1 (hspawned hmem) with hmem | hmem
    · exact hnot hmem
    · exact Nat.ne_of_lt hlt (List.mem_singleton.1 hmem)
  begun who hle := by
    rw [hnext] at hle
    exact h.begun who (Nat.le_of_succ_le hle)

/-- Something happens: one of the tasks that there are does something, and no task is begun that is to come. -/
theorem tell (h : p.Numbered ds) {d : Deed}
    (hacted : ∀ who w r x w', d = .answered who w r x w' → who < p.world.nextTask ∧ who ∉ p.world.spawned.map (·.1))
    (hbegun : ∀ who, p.world.nextTask ≤ who → d.begins? who = none) : p.Numbered (ds ++ [d]) where
  nodup := h.nodup
  lt := h.lt
  acted who w r x w' hmem := by
    rcases List.mem_append.1 hmem with hmem | hmem
    · exact h.acted who w r x w' hmem
    · exact hacted who w r x w' (List.mem_singleton.1 hmem).symm
  begun who hle d' hmem := by
    rcases List.mem_append.1 hmem with hmem | hmem
    · exact h.begun who hle d' hmem
    · cases List.mem_singleton.1 hmem
      exact hbegun who hle

/-- Something else happens. -/
theorem tellOther (h : p.Numbered ds) {d : Deed} (hd : ∀ who w r x w', d ≠ .answered who w r x w') :
    p.Numbered (ds ++ [d]) :=
  h.tell (fun who w r x w' heq => absurd heq (hd who w r x w')) fun _ _ =>
    Deed.begins?_eq_none fun actor w r x w' heq => absurd heq (hd actor w r x w')

/-- A task that there is has been taken up. -/
theorem standing (h : p.Numbered ds) {t : TaskId × Task Outcome} (ht : t ∈ p.tasks) :
    t.1 < p.world.nextTask ∧ t.1 ∉ p.world.spawned.map (·.1) :=
  ⟨h.lt _ (List.mem_append_left _ (List.mem_map_of_mem ht)), fun hmem =>
    (List.nodup_append.1 h.nodup).2.2 _ (List.mem_map_of_mem ht) _ hmem rfl⟩

/-- A request of one of the tasks is answered. -/
theorem answer (h : p.Numbered ds) {t : TaskId × Task Outcome} (ht : t ∈ p.tasks) {r : Request} {x : r.Response} {w' : World}
    {tasks' : List (TaskId × Task Outcome)} (hx : p.world.perform t.1 r = (some x, w'))
    (htasks : tasks'.map (·.1) = p.tasks.map (·.1)) :
    Pool.Numbered (ds ++ [.answered t.1 p.world r x w']) ⟨tasks', w'⟩ := by
  obtain ⟨hlt, hnot⟩ := h.standing ht
  have hwork := p.world.perform_begins t.1 r
  rw [hx] at hwork
  dsimp only at hwork
  rcases hwork with ⟨hnone, hnext, hspawned⟩ | ⟨work, -, hnext, hspawned⟩
  · have htold : p.Numbered (ds ++ [.answered t.1 p.world r x w']) :=
      h.tell (fun _ _ _ _ _ heq => by cases heq; exact ⟨hlt, hnot⟩) fun _ _ => Deed.begins?_of_not hnone
    exact htold.fewer (by simp [Pool.ids, htasks, hspawned]) hnext (by simp [hspawned])
  · have hmore : Pool.Numbered ds ⟨tasks', w'⟩ := by
      refine h.more ?_ hnext (by simp [hspawned])
      simp only [Pool.ids, htasks, hspawned, List.map_append, List.map_cons, List.map_nil]
      rw [← List.append_assoc]
      exact List.perm_append_singleton _ _
    refine hmore.tell (fun _ _ _ _ _ heq => ?_) fun who hle => Deed.begins?_eq_none fun _ _ _ _ _ heq => ?_
    · cases heq
      refine ⟨hnext ▸ Nat.lt_succ_of_lt hlt, fun hmem => ?_⟩
      dsimp only at hmem
      rw [hspawned, List.map_append] at hmem
      rcases List.mem_append.1 hmem with hmem | hmem
      · exact hnot hmem
      · exact Nat.ne_of_lt hlt (List.mem_singleton.1 hmem)
    · cases heq
      rw [hnext] at hle
      exact Nat.ne_of_lt hle

end Pool.Numbered

end DualShell
