import DualShell.Proofs.Machine.Moment
import DualShell.Proofs.Machine.Outcomes
import DualShell.Proofs.Twin.World

/-!
# Runs under other numbers, moment by moment

Two runs whose tasks and machines are twins (`Moment.Twin`) go through their moments together: up to the end of the
counterpart of a task, whatever the second run does the first one does under its own numbers (`Moment.Twin.before`), and
the other way round if the task has nothing more to do (`Moment.Twin.before_counterpart`).

A task that has to wait parks itself at a channel and changes nothing else, so the machine is its own twin then
(`World.twin_of_wait`). Hence it does not matter to what a task comes to whether something was done in its round before
(`Moment.Before.anyhow`).
-/

namespace DualShell

/-! ## Waiting -/

namespace Renaming

/-- The renaming that changes nothing leaves descriptors as they are, and so it does with the rest that requests carry. -/
theorem descriptors_plain (t : Descriptors) : t.rename plain = t := by
  refine congrArg Descriptors.mk ?_
  simp [connection_plain]

theorem context_plain (ctx : Context) : ctx.rename plain = ctx := by
  unfold Context.rename
  rw [descriptors_plain]
  rfl

theorem inlet_plain (i : Inlet) : i.rename plain = i := by
  cases i <;> rfl

theorem outlet_plain (o : Outlet) : o.rename plain = o := by
  cases o <;> rfl

theorem wiring_plain (w : Wiring) : w.rename plain = w := by
  obtain ⟨input, output⟩ := w
  unfold Wiring.rename
  simp [funext inlet_plain, funext outlet_plain]

theorem work_plain (work : Work) : work.rename plain = work := by
  cases work with
  | form code ctx wiring => simp [Work.rename, context_plain, wiring_plain]
  | job p ctx id => simp [Work.rename, context_plain]
  | gather side c k ctx => exact congrArg (Work.gather side c k) (context_plain ctx)

end Renaming

open Renaming

theorem Request.rename_plain (r : Request) : r.rename plain = r := by
  cases r with
  | closeOutlet o | write o | put o => simp [Request.rename, outlet_plain]
  | closeInlet i | line i | toEnd i | upTo i | item i => simp [Request.rename, inlet_plain]
  | startJob p ctx => simp [Request.rename, context_plain]
  | spawn work => simp [Request.rename, work_plain]
  | _ => rfl

/-- Everybody may ask anything without a renaming. -/
theorem Request.allowed_plain (r : Request) : r.Allowed plain.scheme := by
  cases r with
  | takeCollected k => exact rfl
  | closeOutlet o | write o => exact writable_plain o
  | closeInlet i => exact closable_plain i
  | put o v => exact ⟨writable_plain o, trivial⟩
  | startJob p ctx => exact usable_plain ctx
  | spawn work => exact usable_work_plain work
  | edit c change => cases change with
    | replace keys value => exact ⟨fun _ _ => trivial, trivial⟩
    | remove keys => exact fun _ _ => trivial
  | activate | openInput => exact fun _ _ => trivial
  | finishJob => exact ⟨fun _ _ => trivial, fun _ _ => trivial⟩
  | _ => trivial

namespace World

variable {w w' : World} {who : TaskId}

/-- A machine is its own twin. -/
theorem Twin.refl (w : World) : w.Twin plain w where
  store := rfl
  fresh := rfl
  handles := rfl
  files := rfl
  source := rfl
  modules := rfl
  kernel? _ := rfl
  channels := .refl fun _ c => ⟨.refl c, fun hnot => absurd trivial hnot⟩
  pipes _ _ := trivial
  collectors := .refl fun _ x => by
    unfold Collector.Twin
    simp [plain]
  own _ _ := rfl
  nextTask _ := rfl
  spawned := by
    refine (List.map_id _).symm.trans (List.map_congr_left fun s _ => ?_)
    rw [work_plain]
    rfl
  usable s _ := usable_work_plain s.2
  ended := (List.map_id _).symm

/-- Somebody was parked at a channel. -/
theorem Twin.park {i : ChannelId} {c c' : Channel} (hc : w.channels[i]? = some c) (hlike : c'.Like c) :
    w.Twin plain { w with channels := w.channels.setIfInBounds i c' } := by
  have htwin : c.Twin plain i c' := ⟨hlike.symm, fun hnot => absurd trivial hnot⟩
  have hset := (Twin.refl w).setChannel i htwin
  rwa [Tables.setIfInBounds_self hc] at hset

/-- A step that is not answered is blocked. -/
theorem answerStep_none {α : Type} {x : Step α × World} (h : answerStep x = (none, w')) : x = (.blocked, w') := by
  obtain ⟨result, w⟩ := x
  cases result with
  | blocked =>
    cases h
    rfl
  | more | done | failed => cases h

/-- A step of a read that has to wait parks the reader. -/
theorem twin_of_reading {α : Type} {inlet : Inlet} {f : Channel → Step α × Channel} {g : OpenFile → Step α × OpenFile}
    (h : w.reading inlet f g = (.blocked, w')) (hf : ∀ {c c'}, f c = (.blocked, c') → c'.Like c)
    (hg : ∀ {o o'}, g o ≠ (.blocked, o')) : w.Twin plain w' := by
  cases inlet with
  | channel i =>
    unfold reading at h
    dsimp only at h
    split at h
    · cases h
      exact .refl w
    · rename_i c hc
      rcases hx : f c with ⟨result, c'⟩
      rw [hx] at h
      cases h
      exact .park hc (hf hx)
  | file i =>
    unfold reading at h
    dsimp only at h
    split at h
    · cases h
      exact .refl w
    · rename_i o ho
      rcases hx : g o with ⟨result, o'⟩
      rw [hx] at h
      cases h
      exact absurd hx hg

/-- There is always something to fetch from a file, or it fails. -/
theorem fetchFile_ne {files : FileTree} {count : Nat} {o o' : OpenFile} : fetchFile files count o ≠ (.pending, o') := by
  unfold fetchFile
  split <;> exact fun h => by cases h

/-- A file never blocks. -/
theorem readingFile_ne {α : Type} {step : LineReader → OpenFile → Step α × LineReader × OpenFile} {o o' : OpenFile}
    (hstep : ∀ {r r' o o'}, step r o ≠ (.blocked, r', o')) : readingFile step o ≠ (.blocked, o') := by
  unfold readingFile
  rcases hx : step o.reader o with ⟨result, r, o₁⟩
  intro h
  cases h
  exact hstep hx

/-- Whoever waits for a line waits at a channel, and has changed nothing but who is parked there. -/
theorem twin_of_line {inlet : Inlet} (h : w.line who inlet = (.blocked, w')) : w.Twin plain w' := by
  refine twin_of_reading h Channel.line_blocked (readingFile_ne fun hstep => ?_)
  obtain ⟨-, n, hfetch⟩ := LineReader.line_waits hstep
  exact fetchFile_ne hfetch

/-- Whoever waits for an item has changed nothing but who is parked. -/
theorem twin_of_item {inlet : Inlet} {m : Merging} (hx : w.perform who (.item inlet m) = (none, w')) : w.Twin plain w' := by
  simp only [perform] at hx
  split at hx
  · rename_i m' v hitem
    cases hx
    cases inlet with
    | channel i =>
      unfold item at hitem
      dsimp only at hitem
      split at hitem
      · cases hitem
        exact .refl w
      · rename_i c hc
        rcases hx : c.item .values who m with ⟨result, m₁, c'⟩
        rw [hx] at hitem
        cases hitem
        exact .park hc (Channel.item_blocked hx).2
    | file i =>
      rcases hx : w.line who (.file i) with ⟨result, v⟩
      unfold item at hitem
      dsimp only at hitem
      rw [hx] at hitem
      cases result with
      | blocked =>
        cases hitem
        exact twin_of_line hx
      | more | done | failed => cases hitem
  · cases hx

/-- Whoever waits to write has changed nothing but who is parked. -/
theorem twin_of_write {o : Outlet} {data : Bytes} (h : w.write who o data = (none, w')) : w.Twin plain w' := by
  cases o with
  | channel i =>
    unfold write at h
    dsimp only at h
    split at h
    · cases h
    · rename_i c hc
      rcases hx : c.write who data with ⟨result, c'⟩
      rw [hx] at h
      cases result with
      | pending =>
        cases h
        exact .park hc (Channel.write_pending hx)
      | accepted | broken => cases h
  | file i =>
    unfold write at h
    dsimp only at h
    split at h <;> cases h
  | collector i => cases h

/-- Whoever waits to put a value has changed nothing but who is parked. -/
theorem twin_of_put {o : Outlet} {v : Value} (h : w.put o v = (none, w')) : w.Twin plain w' := by
  cases o with
  | channel i =>
    unfold put at h
    dsimp only at h
    split at h
    · cases h
    · rename_i c hc
      rcases hx : c.put v with ⟨result, c'⟩
      rw [hx] at h
      cases result with
      | pending =>
        cases h
        exact .park hc (Channel.put_pending hx)
      | accepted | broken => cases h
  | file | collector => cases h

/-- Whoever has to wait is parked, and nothing else. -/
theorem twin_of_wait {r : Request} (hx : w.perform who r = (none, w')) : w.Twin plain w' := by
  cases r with
  | line i => exact twin_of_line (answerStep_none hx)
  | toEnd i =>
    refine twin_of_reading (answerStep_none hx) Channel.toEnd_blocked (readingFile_ne fun h => ?_)
    obtain ⟨-, n, hfetch⟩ := LineReader.toEnd_waits h
    exact fetchFile_ne hfetch
  | upTo i count =>
    refine twin_of_reading (answerStep_none hx) Channel.upTo_blocked (readingFile_ne fun h => ?_)
    obtain ⟨-, n, hfetch⟩ := LineReader.upTo_waits h
    exact fetchFile_ne hfetch
  | write o data => exact twin_of_write hx
  | put o v => exact twin_of_put hx
  | item i m => exact twin_of_item hx
  | claimModule key place =>
    simp only [perform] at hx
    split at hx
    · cases hx
      exact .refl w
    · cases hx
    · cases hx
  | waitJob k id =>
    obtain rfl : w = w' := congrArg Prod.snd hx
    exact .refl w
  | join id =>
    simp only [perform] at hx
    split at hx
    · cases hx
      exact .refl w
    · cases hx
  | _ => cases hx

/-- Whoever had to wait has to wait again. -/
theorem waits_again {r : Request} (hx : w.perform who r = (none, w')) : ∃ w'', w'.perform who r = (none, w'') := by
  have hagain : Option.Rel (r.Meets plain.scheme) (w.perform who r).1 (w'.perform who (r.rename plain)).1 :=
    ((twin_of_wait hx).perform who who (Request.allowed_plain r)).1
  rcases hy : w'.perform who (r.rename plain) with ⟨answer, w''⟩
  rw [hx, hy] at hagain
  cases hagain
  refine ⟨w'', ?_⟩
  have hsame : ∀ r', r' = r → w'.perform who r' = (none, w'') → w'.perform who r = (none, w'') := by
    rintro r' rfl
    exact id
  exact hsame _ (Request.rename_plain r) hy

end World

/-! ## Moments -/

/-- A task and its counterpart; the first one goes on with `rest` if it is `main`. -/
def Moment.TwinTasks (ρ : Renaming) (main : TaskId) (rest : Outcome → Task Outcome) (t t' : TaskId × Task Outcome) : Prop :=
  t'.1 = ρ.task t.1 ∧ ∃ task owed, t.2 = task.bind (if t.1 = main then rest else .ret) ∧
    Task.Twin ρ.scheme (fun _ o o' => o' = o) owed task t'.2

/-- A task was begun some time ago. -/
structure World.Began (id : TaskId) (w : World) : Prop where
  lt : id < w.nextTask
  taken : ∀ s ∈ w.spawned, s.1 ≠ id

/-- Moments of two runs under different numbers. One task of the first run may have more to do than its counterpart. -/
structure Moment.Twin (ρ : Renaming) (main : TaskId) (rest : Outcome → Task Outcome) (m m' : Moment) : Prop where
  due : List.Forall₂ (TwinTasks ρ main rest) m.due m'.due
  had : List.Forall₂ (TwinTasks ρ main rest) m.had m'.had
  moved : m'.moved = m.moved
  world : m.world.Twin ρ m'.world
  began : m.world.Began main

/-- A task that was begun has been begun after any request. -/
theorem World.Began.perform {id : TaskId} {w : World} (h : w.Began id) (who : TaskId) (r : Request) :
    (w.perform who r).2.Began id := by
  obtain ⟨-, hnext, hspawned⟩ | ⟨work, -, hnext, hspawned⟩ := w.perform_begins who r
  · exact ⟨hnext ▸ h.lt, fun s hs => h.taken s (hspawned ▸ hs)⟩
  · refine ⟨hnext ▸ Nat.lt_succ_of_lt h.lt, fun s hs => ?_⟩
    rcases List.mem_append.1 (hspawned ▸ hs) with hs | hs
    · exact h.taken s hs
    · exact List.mem_singleton.1 hs ▸ Nat.ne_of_gt h.lt

namespace Limits

/-- Work under other numbers. -/
theorem work_twin (l : Limits) {ρ : Renaming} {work : Work} (h : work.Usable ρ) :
    Task.Twin ρ.scheme (fun _ o o' => o' = o) 0 (l.evaluator.evalWork work) (l.evaluator.evalWork (work.rename ρ)) :=
  ((Evaluator.atDepth_twins l.loop l.depth).evalWork h 0).mono fun _ _ _ h => h.2.1

end Limits

namespace Moment

variable {l : Limits} {ρ : Renaming} {main : TaskId} {rest : Outcome → Task Outcome} {m m' n n' : Moment}

namespace Twin

/-- A round begins in both. -/
theorem round {had had' : List (TaskId × Task Outcome)} {moved : Bool} {w w' : World}
    (hhad : List.Forall₂ (TwinTasks ρ main rest) had had') (hw : w.Twin ρ w') (hbegan : w.Began main) :
    Option.Rel (Twin ρ main rest) (Moment.next l.evaluator.evalWork ⟨[], had, moved, w⟩)
      (Moment.next l.evaluator.evalWork ⟨[], had', moved, w'⟩) := by
  have htasks : List.Forall₂ (TwinTasks ρ main rest) (Pool.adopt l.evaluator.evalWork ⟨had, w⟩).tasks
      (Pool.adopt l.evaluator.evalWork ⟨had', w'⟩).tasks := by
    unfold Pool.adopt
    rw [hw.spawned, List.map_map]
    refine List.rel_append hhad
      (List.forall₂_map_left_iff.2 (List.forall₂_map_right_iff.2 (List.forall₂_same.2 fun s hs => ?_)))
    refine ⟨rfl, l.evaluator.evalWork s.2, 0, ?_, l.work_twin (hw.usable s hs)⟩
    rw [if_neg (hbegan.taken s hs), Task.bind_ret]
  have hempty : (Pool.adopt l.evaluator.evalWork ⟨had', w'⟩).tasks.isEmpty =
    (Pool.adopt l.evaluator.evalWork ⟨had, w⟩).tasks.isEmpty := by
    rw [Bool.eq_iff_iff, List.isEmpty_iff_length_eq_zero, List.isEmpty_iff_length_eq_zero, htasks.length_eq]
  unfold Moment.next
  dsimp only
  rw [hempty]
  split
  · exact .some ⟨htasks, .nil, rfl, ⟨hw.store, hw.fresh, hw.handles, hw.files, hw.source, hw.modules, hw.kernel?,
      hw.channels, hw.pipes,
      hw.collectors, hw.own, hw.nextTask, rfl, List.forall_mem_nil _, hw.ended⟩, hbegan.lt, List.forall_mem_nil _⟩
  · exact .none

/-- Twins go on to twins, as long as the task is not at its end. -/
theorem next (h : Twin ρ main rest m m') (hend : ¬m'.AtEnd (ρ.task main)) : ¬m.AtEnd main ∧
    Option.Rel (Twin ρ main rest) (m.next l.evaluator.evalWork) (m'.next l.evaluator.evalWork) := by
  obtain ⟨due, had, moved, w⟩ := m
  obtain ⟨due', had', moved', w'⟩ := m'
  obtain ⟨hdue, hhad, hmoved, hw, hbegan⟩ := h
  cases hmoved
  cases hdue with
  | nil => exact ⟨fun ⟨_, _, hdue⟩ => List.cons_ne_nil _ _ hdue.symm, round hhad hw hbegan⟩
  | @cons t t' due due' ht hdue =>
    obtain ⟨who, t⟩ := t
    obtain ⟨who', t'⟩ := t'
    obtain ⟨hwho, task, owed, htask, htwin⟩ := ht
    obtain rfl : who' = ρ.task who := hwho
    obtain rfl : t = task.bind (if who = main then rest else .ret) := htask
    cases htwin with
    | @ret _ o' o ho =>
      obtain rfl : o = o' := ho
      have hne : who ≠ main := fun heq => hend ⟨o, due', by rw [heq]⟩
      refine ⟨fun ⟨_, _, heq⟩ => hne (congrArg Prod.fst (List.cons.inj heq).1), ?_⟩
      rw [if_neg hne]
      exact .some ⟨hdue, hhad, rfl, hw.endTask who o, hbegan.lt, hbegan.taken⟩
    | exhausted => exact ⟨fun ⟨_, _, heq⟩ => (by cases heq), .none⟩
    | @request _ r go go' hr hgo =>
      refine ⟨fun ⟨_, _, heq⟩ => (by cases heq), ?_⟩
      obtain ⟨hanswers, hworld⟩ := hw.perform who (ρ.task who) hr
      have hbegan' := hbegan.perform who r
      rcases hx : w.perform who r with ⟨_ | x, v⟩ <;> rcases hx' : w'.perform (ρ.task who) (r.rename ρ) with ⟨_ | x', v'⟩ <;>
        rw [hx, hx'] at hanswers <;> cases hanswers <;> rw [hx] at hworld hbegan' <;> rw [hx'] at hworld
      · rw [Task.bind, next_wait hx, next_wait hx']
        exact .some ⟨hdue, List.rel_append hhad (.cons ⟨rfl, .request r go, owed, rfl, .request hr hgo⟩ .nil), rfl,
          hworld, hbegan'⟩
      · rw [Task.bind, next_answer hx, next_answer hx']
        exact .some ⟨.cons ⟨rfl, go x, _, rfl, hgo x x' ‹_›⟩ hdue, hhad, rfl, hworld, hbegan'⟩

/-- If the task has nothing more to do than its counterpart, they end together. -/
theorem atEnd (h : Twin ρ main .ret m m') (hend : m'.AtEnd (ρ.task main)) : m.AtEnd main := by
  obtain ⟨due, had, moved, w⟩ := m
  obtain ⟨due', had', moved', w'⟩ := m'
  obtain ⟨o, rest, hdue'⟩ := hend
  obtain rfl : due' = (ρ.task main, .ret o) :: rest := hdue'
  cases h.due with
  | @cons t _ due _ ht =>
    obtain ⟨who, t⟩ := t
    obtain ⟨hwho, task, owed, htask, htwin⟩ := ht
    obtain rfl : main = who := ρ.task_injective hwho
    obtain rfl : t = task.bind (if main = main then .ret else .ret) := htask
    cases htwin with
    | @ret _ o => exact ⟨o, due, by rw [ite_self, Task.bind_ret]⟩

/-- Up to the end of the counterpart, the first run does what the second one does. -/
theorem before (h : Twin ρ main rest m m') (hn : Before l.evaluator.evalWork (ρ.task main) m' n') :
    ∃ n, Before l.evaluator.evalWork main m n ∧ Twin ρ main rest n n' := by
  induction hn with
  | refl => exact ⟨m, .refl, h⟩
  | @tail a b _ hnext ih =>
    obtain ⟨n, hbefore, hn⟩ := ih
    obtain ⟨hend, hrel⟩ := hn.next (l := l) hnext.1
    rw [hnext.2] at hrel
    rcases hb : n.next l.evaluator.evalWork with _ | b' <;> rw [hb] at hrel <;> cases hrel
    exact ⟨b', hbefore.tail ⟨hend, hb⟩, ‹_›⟩

/-- And the second one does what the first one does, if the task has nothing more to do. -/
theorem before_counterpart (h : Twin ρ main .ret m m') (hn : Before l.evaluator.evalWork main m n) :
    ∃ n', Before l.evaluator.evalWork (ρ.task main) m' n' ∧ Twin ρ main .ret n n' := by
  induction hn with
  | refl => exact ⟨m', .refl, h⟩
  | @tail a b _ hnext ih =>
    obtain ⟨n', hbefore, hn⟩ := ih
    have hend : ¬n'.AtEnd (ρ.task main) := fun hend => hnext.1 (hn.atEnd hend)
    obtain ⟨-, hrel⟩ := hn.next (l := l) hend
    rw [hnext.2] at hrel
    rcases hb : n'.next l.evaluator.evalWork with _ | b' <;> rw [hb] at hrel <;> cases hrel
    exact ⟨b', hbefore.tail ⟨hend, hb⟩, ‹_›⟩

end Twin

/-! ### The first request -/

variable {start : Work → Task Outcome} {t : Task Outcome} {o : Outcome} {w w' v : World} {moved : Bool}

/-- Where nothing was done and the only task has to wait, nothing more happens. -/
theorem stuck {r : Request} {go : r.Response → Task Outcome} (hx : w.perform main r = (none, w')) :
    ¬Before start main ⟨[(main, .request r go)], [], false, w⟩ ⟨[(main, .ret o)], [], moved, v⟩ := by
  intro h
  obtain heq | ⟨_, ⟨-, hnext⟩, h⟩ := Relation.ReflTransGen.cases_head h
  · cases heq
  · rw [next_wait hx] at hnext
    cases hnext
    obtain heq | ⟨_, ⟨-, hnext⟩, -⟩ := Relation.ReflTransGen.cases_head h
    · cases heq
    · cases hnext

/-- A task that comes to its end when it is the only one does not begin with waiting. -/
theorem not_waiting {flag : Bool} {r : Request} {go : r.Response → Task Outcome} (hspawned : w.spawned = [])
    (h : Before start main ⟨[(main, .request r go)], [], flag, w⟩ ⟨[(main, .ret o)], [], moved, v⟩) :
    w.perform main r ≠ (none, w') := by
  intro hx
  cases flag with
  | false => exact stuck hx h
  | true =>
    obtain ⟨w'', hagain⟩ := World.waits_again hx
    have hnone : w'.spawned = [] := by rw [(World.twin_of_wait hx).spawned, hspawned, List.map_nil]
    have hadopt : Pool.adopt start ⟨[(main, .request r go)], w'⟩ = ⟨[(main, .request r go)], w'⟩ := Pool.adopt_eq hnone
    obtain heq | ⟨_, ⟨-, hnext⟩, h⟩ := Relation.ReflTransGen.cases_head h
    · cases heq
    · rw [next_wait hx] at hnext
      cases hnext
      obtain heq | ⟨_, ⟨-, hnext⟩, h⟩ := Relation.ReflTransGen.cases_head h
      · cases heq
      · rw [List.nil_append, next_round (congrArg Pool.tasks hadopt), hadopt] at hnext
        cases hnext
        exact stuck hagain h

/-- Whether something was done before the only task began does not matter to what it comes to. -/
theorem Before.anyhow {flag : Bool} (h : Before start main ⟨[(main, t)], [], flag, w⟩ ⟨[(main, .ret o)], [], moved, v⟩)
    (hspawned : w.spawned = []) (flag' : Bool) : ∃ moved', Before start main ⟨[(main, t)], [], flag',
      w⟩ ⟨[(main, .ret o)], [], moved', v⟩ := by
  obtain heq | ⟨_, ⟨hend, hnext⟩, hrest⟩ := Relation.ReflTransGen.cases_head h
  · cases heq
    exact ⟨flag', .refl⟩
  · cases t with
    | ret o => exact absurd ⟨o, [], rfl⟩ hend
    | exhausted => cases hnext
    | request r go =>
      rcases hx : w.perform main r with ⟨_ | x, w'⟩
      · exact absurd hx (not_waiting hspawned h)
      · rw [next_answer hx] at hnext
        cases hnext
        exact ⟨moved, .head ⟨fun ⟨_, _, heq⟩ => (by cases heq), next_answer hx⟩ hrest⟩

end Moment

end DualShell
