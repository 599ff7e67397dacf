import Mathlib.Logic.Function.Basic
import DualShell.Proofs.Job.Machine
import DualShell.Proofs.Machine.Moment
import DualShell.Proofs.Machine.Outcomes
import DualShell.Proofs.Scope.Globals
import DualShell.Proofs.Twin.Lawful

/-!
# Tasks that are waited for

Code joins every task that it begins before it ends (`Limits.joins_block`): it is a twin of itself, and twins keep
count. So when a run begins with one task and starts no job, every other task is there for an earlier one that has yet
to join it (`Pool.Tended`). At the end of the first task nothing else is left (`Pool.Tended.alone`), and a bounded run
in which it ends has given up nothing on the way (`Limits.completes`): it would have come to the same within any larger
bounds (`Limits.Completes.run_eq`).
-/

namespace DualShell

variable {k : KernelId} {main who : TaskId}

/-! ## Code joins what it begins -/

/-- The same numbers, and code runs on one kernel. -/
def Renaming.on (k : KernelId) : Renaming := { Renaming.plain with home := (· = k) }

/-- In the end every task is joined that is begun or owed, and what is begun runs on the kernel. -/
def Task.Joins (k : KernelId) : Task Outcome → Multiset TaskId → Prop
  | .ret _, owed => owed = 0
  | .request r next, owed => (∀ work, r.Begins work → work.ctx.kernel = k) ∧ ∀ x, (next x).Joins k (r.owes x owed)
  | .exhausted, _ => True

namespace Request

/-- Work that may be begun on a kernel runs on that kernel. -/
theorem Allowed.begins {r : Request} (h : r.Allowed (Renaming.on k).scheme) {work : Work} (hb : r.Begins work) :
    work.ctx.kernel = k := by
  cases r with
  | spawn started =>
    cases hb
    cases work with
    | form => exact h.1.home
    | job => exact h.home
    | gather => exact h.home
  | startJob p ctx =>
    obtain ⟨id, rfl⟩ := hb
    exact h.home
  | _ => exact hb.elim

/-- Whatever the answer is, the twin may get one, too. -/
theorem exists_meets_on (k : KernelId) (r : Request) (x : r.Response) : ∃ x', r.Meets (Renaming.on k).scheme x x' := by
  cases r with
  | load | adopt => exact ⟨x, rfl, trivial⟩
  | peek | fixed | takeCollected | item => exact ⟨x, rfl, fun _ _ => trivial⟩
  | openChannel => exact ⟨x, rfl, trivial⟩
  | openInput => exact ⟨x, rfl⟩
  | openCollector => exact ⟨x, rfl, rfl⟩
  | openFile => exact ⟨x, rfl, fun p _ => ⟨Renaming.connection_plain p, fun o _ => Renaming.writable_plain o⟩⟩
  | waitJob => exact ⟨x, rfl, ⟨fun _ _ => trivial, fun _ _ => trivial⟩, trivial⟩
  | spawn => exact ⟨x, rfl, trivial⟩
  | join => exact ⟨x, rfl, fun _ _ => trivial, trivial⟩
  | _ => exact ⟨x, HEq.rfl⟩

end Request

/-- A task that is its own twin and owes nothing in the end joins what it begins. -/
theorem Task.Twin.joins {t t' : Task Outcome} {owed : Multiset TaskId}
    (h : Task.Twin (Renaming.on k).scheme (fun owed _ _ => owed = 0) owed t t') : t.Joins k owed := by
  induction h with
  | ret h => exact h
  | request hr _ ih =>
    refine ⟨fun _ => hr.begins, fun x => ?_⟩
    obtain ⟨x', hmeets⟩ := Request.exists_meets_on k _ x
    exact ih x x' hmeets
  | exhausted => trivial

namespace Limits

variable (l : Limits)

/-- Evaluation on a kernel is its own twin there. -/
theorem twins_on (k : KernelId) : l.evaluator.Twins (Renaming.on k).scheme := Evaluator.atDepth_twins l.loop l.depth

/-- A block joins what it begins. -/
theorem joins_block (b : Code.Block) {ctx : Context} (h : ctx.kernel = k) : (l.evaluator.evalBlock b ctx).run.Joins k 0 :=
  (((l.twins_on k).evalBlock ⟨(Renaming.usable_plain ctx).descriptors, h⟩ b 0).mono fun _ _ _ h => h.1).joins

/-- Work joins what it begins. -/
theorem joins_work {work : Work} (h : work.ctx.kernel = k) : (l.evaluator.evalWork work).Joins k 0 := by
  have husable : work.Usable (Renaming.on k) := by
    cases work with
    | form code ctx wiring =>
      exact ⟨⟨(Renaming.usable_plain ctx).descriptors, h⟩, fun i _ => Renaming.closable_plain i,
        fun o _ => Renaming.writable_plain o⟩
    | job p ctx id => exact ⟨(Renaming.usable_plain ctx).descriptors, h⟩
    | gather side c k ctx => exact ⟨(Renaming.usable_plain ctx).descriptors, h⟩
  exact (((l.twins_on k).evalWork husable 0).mono fun _ _ _ h => h.1).joins

end Limits

/-! ## Tasks that are there for others -/

/-- Besides `main`, every task is there for an earlier one that has yet to join it, and all run on the kernel. -/
structure Pool.Tended (k : KernelId) (main : TaskId) (p : Pool) : Prop where
  nodup : p.ids.Nodup
  lt : ∀ id ∈ p.ids, id < p.world.nextTask
  ended : ∀ e ∈ p.world.ended, e.1 < p.world.nextTask ∧ e.1 ∉ p.ids
  present : main ∈ p.tasks.map (·.1)
  kernel : (p.world.kernel? k).isSome
  home : ∀ s ∈ p.world.spawned, s.2.ctx.kernel = k
  owed : ∃ owed : TaskId → Multiset TaskId, (∀ t ∈ p.tasks, t.2.Joins k (owed t.1)) ∧
    ∀ id ∈ p.ids, id ≠ main → ∃ i ∈ p.tasks.map (·.1), i < id ∧ id ∈ owed i

/-- No request takes a kernel away or brings one. -/
theorem World.kernel?_perform (w : World) (who : TaskId) (r : Request) (k : KernelId) :
    ((w.perform who r).2.kernel? k).isSome = (w.kernel? k).isSome := by
  have htops := congrArg (fun tops => tops[k]?.isSome) (w.perform_tops who r)
  simpa [World.tops, World.kernel?] using htops

/-- A task whose outcome is handed out has ended. -/
theorem World.mem_ended_of_take {w w' : World} {id : TaskId} {o : Outcome} (h : w.takeEnded id = some (o, w')) :
    (id, o) ∈ w.ended := by
  unfold World.takeEnded at h
  split at h
  · rename_i heq
    cases h
    have hid := List.find?_some heq
    cases beq_iff_eq.1 hid
    exact List.mem_of_find?_eq_some heq
  · cases h

/-- The outcome of a task that has ended is taken up once. -/
theorem World.takeEnded_endTask {w : World} {id : TaskId} {o : Outcome} (h : ∀ e ∈ w.ended, e.1 ≠ id) :
    (w.endTask id o).takeEnded id = some (o, w) := by
  have hnone : w.ended.find? (·.1 == id) = none := List.find?_eq_none.2 fun e he heq => h e he (beq_iff_eq.1 heq)
  have hrest : w.ended.filter (·.1 != id) = w.ended := List.filter_eq_self.2 fun e he => by simpa using h e he
  simp [World.takeEnded, World.endTask, List.find?_append, List.filter_append, hnone, hrest]

/-- To start a job takes a number. -/
theorem World.next_startJob {w : World} {ctx : Context} (p : Code.Pipeline) (hk : (w.kernel? ctx.kernel).isSome) :
    ((w.startJob p ctx).2.jobs ctx.kernel).next = (w.jobs ctx.kernel).next + 1 := by
  show ((w.setJobs ctx.kernel ((w.jobs ctx.kernel).spawn p.text).2).jobs ctx.kernel).next = _
  rw [jobs_setJobs, if_pos ⟨rfl, hk⟩]
  rfl

namespace Pool.Tended

variable {w w' : World} {ts ts' : List (TaskId × Task Outcome)} {o : Outcome}

/-- The order of tasks does not matter for who is tended. -/
theorem perm (h : Tended k main ⟨ts, w⟩) (hts : ts.Perm ts') : Tended k main ⟨ts', w⟩ := by
  have hids : (Pool.ids ⟨ts, w⟩).Perm (Pool.ids ⟨ts', w⟩) := (hts.map _).append_right _
  obtain ⟨owed, hjoins, howner⟩ := h.owed
  refine ⟨hids.nodup_iff.1 h.nodup, fun id hid => h.lt id (hids.mem_iff.2 hid), fun e he => ?_,
    (hts.map _).mem_iff.1 h.present, h.kernel,
    h.home, owed, fun t ht => hjoins t (hts.mem_iff.2 ht), fun id hid hne => ?_⟩
  · exact ⟨(h.ended e he).1, fun hid => (h.ended e he).2 (hids.mem_iff.2 hid)⟩
  · obtain ⟨i, hi, hlt, hmem⟩ := howner id (hids.mem_iff.2 hid) hne
    exact ⟨i, (hts.map _).mem_iff.1 hi, hlt, hmem⟩

/-- The first task, when nothing else is there. -/
theorem single {t : Task Outcome} (ht : t.Joins k 0) (hspawned : w.spawned = []) (hended : ∀ e ∈ w.ended, e.1 < w.nextTask)
    (hk : (w.kernel? k).isSome) : Tended k w.nextTask ⟨[(w.nextTask, t)], { w with nextTask := w.nextTask + 1 }⟩ := by
  have hids : Pool.ids ⟨[(w.nextTask, t)], { w with nextTask := w.nextTask + 1 }⟩ = [w.nextTask] := by
    simp [Pool.ids, hspawned]
  refine ⟨hids ▸ List.pairwise_singleton _ _, fun id hid => ?_, fun e he => ⟨Nat.lt_succ_of_lt (hended e he), fun hid => ?_⟩,
    List.mem_singleton_self _, hk, fun s hs => ?_, fun _ => 0, fun t' ht' => ?_, fun id hid hne => ?_⟩
  · rw [hids, List.mem_singleton] at hid
    exact hid ▸ Nat.lt_succ_self _
  · rw [hids, List.mem_singleton] at hid
    exact Nat.ne_of_lt (hended e he) hid
  · rw [hspawned] at hs
    cases hs
  · cases List.mem_singleton.1 ht'
    exact ht
  · rw [hids, List.mem_singleton] at hid
    exact absurd hid hne

variable {t : Task Outcome}

/-- A task is there once. -/
theorem not_mem_rest (h : Tended k main ⟨(who, t) :: ts, w⟩) : who ∉ ts.map (·.1) ++ w.spawned.map (·.1) :=
  (List.nodup_cons.1 h.nodup).1

/-- A request has to wait. -/
theorem wait {r : Request} (h : Tended k main ⟨ts, w⟩) (hx : w.perform who r = (none, w')) : Tended k main ⟨ts, w'⟩ := by
  have hbegins := w.perform_begins who r
  have hended : ∀ e ∈ w'.ended, e ∈ w.ended := fun e he => w.ended_perform who r (by rwa [hx])
  have hkernel := w.kernel?_perform who r k
  rw [hx] at hbegins hkernel
  rcases hbegins with ⟨-, hnext, hspawned⟩ | ⟨work, hb, -, -⟩
  · have hids : Pool.ids ⟨ts, w'⟩ = Pool.ids ⟨ts, w⟩ := by
      unfold Pool.ids
      rw [hspawned]
    refine ⟨hids ▸ h.nodup, fun id hid => hnext ▸ h.lt id (hids ▸ hid), fun e he => ?_, h.present, hkernel.trans h.kernel,
      fun s hs => h.home s (hspawned ▸ hs), ?_⟩
    · rw [hids]
      exact hnext ▸ h.ended e (hended e he)
    · rw [hids]
      exact h.owed
  · cases r with
    | spawn | startJob => cases hx
    | _ => exact hb.elim

/-- What was begun is taken up. -/
theorem takeUp (h : Tended k main ⟨ts, w⟩) (l : Limits) : Tended k main (Pool.adopt l.evaluator.evalWork ⟨ts, w⟩) := by
  have hids : (Pool.adopt l.evaluator.evalWork ⟨ts, w⟩).ids = Pool.ids ⟨ts, w⟩ := by simp [Pool.ids, Pool.adopt]
  obtain ⟨owed, hjoins, howner⟩ := h.owed
  have hnew : ∀ s ∈ w.spawned, s.1 ∉ ts.map (·.1) := fun s hs hmem =>
    (List.nodup_append.1 h.nodup).2.2 _ hmem _ (List.mem_map_of_mem hs) rfl
  obtain ⟨owed', hold, hnone⟩ : ∃ owed' : TaskId → Multiset TaskId, (∀ i ∈ ts.map (·.1), owed' i = owed i) ∧
      ∀ i, i ∉ ts.map (·.1) → owed' i = 0 :=
    ⟨fun i => if i ∈ ts.map (·.1) then owed i else 0, fun _ hi => if_pos hi, fun _ hi => if_neg hi⟩
  refine ⟨hids ▸ h.nodup, fun id hid => h.lt id (hids ▸ hid), hids ▸ h.ended, ?_, h.kernel, List.forall_mem_nil _,
    owed', fun t ht => ?_, fun id hid hne => ?_⟩
  · rw [Pool.adopt, List.map_append]
    exact List.mem_append_left _ h.present
  · rcases List.mem_append.1 ht with ht | ht
    · rw [hold t.1 (List.mem_map_of_mem ht)]
      exact hjoins t ht
    · obtain ⟨s, hs, rfl⟩ := List.mem_map.1 ht
      rw [hnone s.1 (hnew s hs)]
      exact l.joins_work (h.home s hs)
  · obtain ⟨i, hi, hlt, hmem⟩ := howner id (hids ▸ hid) hne
    refine ⟨i, ?_, hlt, ?_⟩
    · rw [Pool.adopt, List.map_append]
      exact List.mem_append_left _ hi
    · rwa [hold i hi]

/-- Another task ends, which has nothing left to join. -/
theorem finish (h : Tended k main ⟨(who, .ret o) :: ts, w⟩) (hne : who ≠ main) : Tended k main ⟨ts, w.endTask who o⟩ := by
  obtain ⟨owed, hjoins, howner⟩ := h.owed
  have hnone : owed who = 0 := hjoins _ List.mem_cons_self
  have hids : ∀ id ∈ Pool.ids ⟨ts, w.endTask who o⟩, id ∈ Pool.ids ⟨(who, .ret o) :: ts, w⟩ :=
    fun id => List.mem_cons_of_mem _
  refine ⟨(List.nodup_cons.1 h.nodup).2, fun id hid => h.lt id (hids id hid), fun e he => ?_, ?_, h.kernel, h.home, owed,
    fun t ht => hjoins t (List.mem_cons_of_mem _ ht), fun id hid hmain => ?_⟩
  · rcases List.mem_append.1 he with he | he
    · exact ⟨(h.ended e he).1, fun hid => (h.ended e he).2 (hids _ hid)⟩
    · cases List.mem_singleton.1 he
      exact ⟨h.lt who List.mem_cons_self, h.not_mem_rest⟩
  · exact (List.mem_cons.1 h.present).resolve_left fun heq => hne heq.symm
  · obtain ⟨i, hi, hlt, hmem⟩ := howner id (hids id hid) hmain
    refine ⟨i, (List.mem_cons.1 hi).resolve_left ?_, hlt, hmem⟩
    rintro rfl
    rw [hnone] at hmem
    exact Multiset.notMem_zero _ hmem

/-- What a task owes goes on when a request is answered, except for a task that has ended. -/
theorem mem_owes {r : Request} {x : r.Response} {owed : Multiset TaskId} {id : TaskId} (h : id ∈ owed)
    (hx : w.perform who r = (some x, w')) (hid : ∀ e ∈ w.ended, e.1 ≠ id) : id ∈ r.owes x owed := by
  cases r with
  | spawn work => exact Multiset.mem_cons_of_mem h
  | join j =>
    refine (Multiset.mem_erase_of_ne fun heq => ?_).2 h
    simp only [World.perform] at hx
    split at hx
    · cases hx
    · rename_i htake
      exact hid _ (World.mem_ended_of_take htake) heq.symm
  | _ => exact h

/-- A task that is begun and is no job is owed by the one that began it. -/
theorem next_mem_owes {r : Request} {x : r.Response} {work : Work} (hb : r.Begins work) (hhome : work.ctx.kernel = k)
    (hk : (w.kernel? k).isSome) (hx : w.perform who r = (some x, w')) (hjobs : (w'.jobs k).next ≤ (w.jobs k).next)
    (owed : Multiset TaskId) : w.nextTask ∈ r.owes x owed := by
  cases r with
  | spawn =>
    cases hx
    exact Multiset.mem_cons_self _ _
  | startJob p ctx =>
    obtain ⟨id, rfl⟩ := hb
    obtain rfl : ctx.kernel = k := hhome
    have hjob : w' = (w.startJob p ctx).2 := (congrArg Prod.snd hx).symm
    rw [hjob, World.next_startJob p hk] at hjobs
    exact absurd hjobs (Nat.not_succ_le_self _)
  | _ => exact hb.elim

/-- A request is answered that starts no job. -/
theorem answer {r : Request} {next : r.Response → Task Outcome} {x : r.Response}
    (h : Tended k main ⟨(who, .request r next) :: ts, w⟩)
    (hx : w.perform who r = (some x, w')) (hjobs : (w'.jobs k).next ≤ (w.jobs k).next) :
    Tended k main ⟨(who, next x) :: ts, w'⟩ := by
  obtain ⟨owed, hjoins, howner⟩ := h.owed
  obtain ⟨hhome, hnext⟩ : Task.Joins k (.request r next) (owed who) := hjoins _ List.mem_cons_self
  have hbegins := w.perform_begins who r
  have hended : ∀ e ∈ w'.ended, e ∈ w.ended := fun e he => w.ended_perform who r (by rwa [hx])
  have hkernel : (w'.kernel? k).isSome := by
    have hsame := w.kernel?_perform who r k
    rw [hx] at hsame
    exact hsame.trans h.kernel
  have hothers : ∀ t ∈ ts, t.1 ≠ who :=
    fun t ht heq => h.not_mem_rest (List.mem_append_left _ (heq ▸ List.mem_map_of_mem ht))
  have hjoins' : ∀ t ∈ (who, next x) :: ts, t.2.Joins k (Function.update owed who (r.owes x (owed who)) t.1) := by
    refine List.forall_mem_cons.2 ⟨?_, fun t ht => ?_⟩
    · rw [Function.update_self]
      exact hnext x
    · rw [Function.update_of_ne (hothers t ht)]
      exact hjoins t (List.mem_cons_of_mem _ ht)
  have howner' : ∀ id ∈ Pool.ids ⟨(who, .request r next) :: ts, w⟩, id ≠ main →
      ∃ i ∈ who :: ts.map (·.1), i < id ∧ id ∈ Function.update owed who (r.owes x (owed who)) i := by
    intro id hid hne
    obtain ⟨i, hi, hlt, hmem⟩ := howner id hid hne
    refine ⟨i, hi, hlt, ?_⟩
    by_cases hwho : i = who
    · subst hwho
      rw [Function.update_self]
      exact mem_owes hmem hx fun e he heq => (h.ended e he).2 (heq ▸ hid)
    · rwa [Function.update_of_ne hwho]
  rw [hx] at hbegins
  dsimp only at hbegins
  rcases hbegins with ⟨-, htask, hspawned⟩ | ⟨work, hb, htask, hspawned⟩
  · have hids : Pool.ids ⟨(who, next x) :: ts, w'⟩ = Pool.ids ⟨(who, .request r next) :: ts, w⟩ := by
      simp [Pool.ids, hspawned]
    refine ⟨hids ▸ h.nodup, fun id hid => htask ▸ h.lt id (hids ▸ hid), fun e he => ?_, h.present, hkernel,
      fun s hs => h.home s (hspawned ▸ hs), _, hjoins', hids ▸ howner'⟩
    rw [hids]
    exact htask ▸ h.ended e (hended e he)
  · have hids : Pool.ids ⟨(who, next x) :: ts, w'⟩ = Pool.ids ⟨(who, .request r next) :: ts, w⟩ ++ [w.nextTask] := by
      simp [Pool.ids, hspawned]
    have hnew : w.nextTask ∉ Pool.ids ⟨(who, .request r next) :: ts, w⟩ := fun hid => Nat.lt_irrefl _ (h.lt _ hid)
    refine ⟨hids ▸ ?_, fun id hid => ?_, fun e he => ?_, h.present, hkernel, fun s hs => ?_, _, hjoins',
      fun id hid hne => ?_⟩
    · exact List.nodup_append.2 ⟨h.nodup, List.pairwise_singleton _ _, fun a ha b hb heq =>
        hnew (List.mem_singleton.1 hb ▸ heq ▸ ha)⟩
    · rw [htask]
      rcases List.mem_append.1 (hids ▸ hid) with hid | hid
      · exact Nat.lt_succ_of_lt (h.lt id hid)
      · exact List.mem_singleton.1 hid ▸ Nat.lt_succ_self _
    · obtain ⟨hlt, hnot⟩ := h.ended e (hended e he)
      rw [hids, htask]
      refine ⟨Nat.lt_succ_of_lt hlt, fun hid => ?_⟩
      rcases List.mem_append.1 hid with hid | hid
      · exact hnot hid
      · exact Nat.ne_of_lt hlt (List.mem_singleton.1 hid)
    · rcases List.mem_append.1 (hspawned ▸ hs) with hs | hs
      · exact h.home s hs
      · exact List.mem_singleton.1 hs ▸ hhome work hb
    · rcases List.mem_append.1 (hids ▸ hid) with hid | hid
      · exact howner' id hid hne
      · refine ⟨who, List.mem_cons_self, List.mem_singleton.1 hid ▸ h.lt who List.mem_cons_self, ?_⟩
        rw [Function.update_self, List.mem_singleton.1 hid]
        exact next_mem_owes hb (hhome work hb) h.kernel hx hjobs _

/-- At its end the first task is alone. -/
theorem alone (h : Tended k main ⟨(main, .ret o) :: ts, w⟩) : ts = [] ∧ w.spawned = [] := by
  obtain ⟨owed, hjoins, howner⟩ := h.owed
  have hnone : owed main = 0 := hjoins _ List.mem_cons_self
  have hmain : ∀ id ∈ Pool.ids ⟨(main, .ret o) :: ts, w⟩, id = main := by
    intro id
    induction id using Nat.strongRecOn with
    | ind id ih =>
      intro hid
      by_contra hne
      obtain ⟨i, hi, hlt, hmem⟩ := howner id hid hne
      rw [ih i hlt (List.mem_append_left _ hi), hnone] at hmem
      exact Multiset.notMem_zero _ hmem
  have hrest : ts.map (·.1) ++ w.spawned.map (·.1) = [] := by
    refine List.eq_nil_iff_forall_not_mem.2 fun id hid => h.not_mem_rest ?_
    exact hmain id (List.mem_cons_of_mem _ hid) ▸ hid
  exact ⟨List.map_eq_nil_iff.1 (List.append_eq_nil_iff.1 hrest).1, List.map_eq_nil_iff.1 (List.append_eq_nil_iff.1 hrest).2⟩

end Pool.Tended

/-! ## Runs -/

namespace Moment

variable {l : Limits} {lost : List TaskId} {m m' : Moment} {gone : List (TaskId × Task Outcome)} {w : World} {moved : Bool}

/-- Nothing comes after everything is done, and nothing is given up. -/
theorem Course.of_done {start : Work → Task Outcome} (h : Course start lost ⟨[], [], moved, w⟩ m)
    (hspawned : w.spawned = []) : lost = [] ∧ m = ⟨[], [], moved, w⟩ := by
  cases h with
  | refl => exact ⟨rfl, rfl⟩
  | next hnext =>
    rw [next_done hspawned] at hnext
    cases hnext

/-- Tasks stay tended, up to the end of the first one. -/
theorem tended_next (h : Pool.Tended k main ⟨m.due ++ (m.had ++ gone), m.world⟩) (hend : ¬m.AtEnd main)
    (hnext : m.next l.evaluator.evalWork = some m') (hjobs : (m'.world.jobs k).next ≤ (m.world.jobs k).next) :
    Pool.Tended k main ⟨m'.due ++ (m'.had ++ gone), m'.world⟩ := by
  obtain ⟨due, had, moved, w⟩ := m
  rcases due with _ | ⟨⟨who, t⟩, due⟩
  · simp only [next] at hnext
    split at hnext
    · cases hnext
      refine (h.takeUp l).perm ?_
      simp only [Pool.adopt, List.nil_append, List.append_assoc]
      exact List.perm_append_comm.append_left had
    · cases hnext
  · cases t with
    | ret o =>
      cases hnext
      exact h.finish fun heq => hend ⟨o, due, heq ▸ rfl⟩
    | exhausted => cases hnext
    | request r rest =>
      rcases hx : w.perform who r with ⟨_ | x, w'⟩
      · rw [next_wait hx] at hnext
        cases hnext
        refine (h.wait hx).perm ?_
        simp only [List.append_assoc, List.cons_append, List.nil_append]
        exact List.perm_middle.symm.trans (List.Perm.append_left due List.perm_middle.symm)
      · rw [next_answer hx] at hnext
        cases hnext
        exact h.answer hx hjobs

/-- When the first task comes to its end in a run that starts no job, no task was given up on the way, and none is left. -/
theorem Course.tended (h : Course l.evaluator.evalWork lost m m')
    (hm : Pool.Tended k main ⟨m.due ++ (m.had ++ gone), m.world⟩)
    (hended : ∃ o, (main, o) ∈ m'.world.ended) (hjobs : (m'.world.jobs k).next ≤ (m.world.jobs k).next) :
    gone = [] ∧ ∃ o moved w, Before l.evaluator.evalWork main m ⟨[(main, .ret o)], [], moved, w⟩ ∧
      Pool.Tended k main ⟨[(main, .ret o)], w⟩ ∧ w.spawned = [] ∧ m'.world = w.endTask main o := by
  induction h generalizing gone with
  | refl m =>
    obtain ⟨o, ho⟩ := hended
    exact absurd (List.mem_append_left _ hm.present) (hm.ended _ ho).2
  | @giveUp lost who t due had moved w m hcourse ih =>
    have hperm : ((who, t) :: due ++ (had ++ gone)).Perm (due ++ (had ++ ((who, t) :: gone))) :=
      List.perm_middle.symm.trans (List.Perm.append_left due List.perm_middle.symm)
    obtain ⟨hnone, -⟩ := ih (hm.perm hperm) hended hjobs
    cases hnone
  | @next lost m mid m' hnext hcourse ih =>
    by_cases hend : m.AtEnd main
    · obtain ⟨due, had, moved, w⟩ := m
      obtain ⟨o, rest, hdue⟩ := hend
      obtain rfl : due = (main, .ret o) :: rest := hdue
      obtain ⟨halone, hspawned⟩ := hm.alone
      obtain ⟨rfl, halone⟩ := List.append_eq_nil_iff.1 halone
      obtain ⟨rfl, rfl⟩ := List.append_eq_nil_iff.1 halone
      cases hnext
      obtain ⟨-, rfl⟩ := hcourse.of_done hspawned
      exact ⟨rfl, o, moved, w, .refl, hm, hspawned, rfl⟩
    · obtain ⟨ds, hstep⟩ := next_step hnext
      obtain ⟨ds', hgoes⟩ := hcourse.pool_goes
      have hle : (m.world.jobs k).next ≤ (mid.world.jobs k).next := (World.WorksOn.step hstep).next_le k
      have hle' : (mid.world.jobs k).next ≤ (m'.world.jobs k).next := (World.WorksOn.goes hgoes).next_le k
      have hmid := tended_next hm hend hnext (Nat.le_trans hle' hjobs)
      obtain ⟨hnone, o, moved, w, hbefore, hrest⟩ := ih hmid hended (Nat.le_trans hjobs hle)
      exact ⟨hnone, o, moved, w, .head ⟨hend, hnext⟩ hbefore, hrest⟩

end Moment

open Moment

namespace Limits

variable {l l' : Limits} {t : Task Outcome} {w w' : World} {o : Outcome}

/-- A task comes to an outcome on a machine where nothing else is left then. -/
structure Completes (l : Limits) (t : Task Outcome) (w : World) (o : Outcome) (w' : World) : Prop where
  before : ∃ moved, Before l.evaluator.evalWork w.nextTask ⟨[(w.nextTask, t)], [], false,
    { w with nextTask := w.nextTask + 1 }⟩ ⟨[(w.nextTask, .ret o)], [], moved, w'⟩
  spawned : w'.spawned = []
  ended : ∀ e ∈ w'.ended, e.1 ≠ w.nextTask

/-- A run within bounds in which a task comes to an outcome, and no job is started. -/
theorem completes {k : KernelId} (hrun : l.run t w = (some o, w')) (ht : t.Joins k 0) (hspawned : w.spawned = [])
    (hended : ∀ e ∈ w.ended, e.1 < w.nextTask) (hk : (w.kernel? k).isSome) (hjobs : (w'.jobs k).next ≤ (w.jobs k).next) :
    l.Completes t w o w' ∧ Pool.Tended k w.nextTask ⟨[(w.nextTask, .ret o)], w'⟩ := by
  have hsingle := Pool.Tended.single ht hspawned hended hk
  obtain ⟨lost, m, hcourse, hworld⟩ : ∃ lost m, Moment.Course l.evaluator.evalWork lost _ m ∧ _ :=
    Pool.run_course l.requests l.rounds ⟨[(w.nextTask, t)], { w with nextTask := w.nextTask + 1 }⟩
  unfold run at hrun
  dsimp only at hrun
  rw [← hworld] at hrun
  rcases htake : m.world.takeEnded w.nextTask with _ | ⟨o', w''⟩
  · rw [htake] at hrun
    cases hrun
  · rw [htake] at hrun
    cases hrun
    have hjobs' := Nat.le_trans ((World.WorksOn.takeEnded htake).next_le k) hjobs
    have hstart : Pool.Tended k w.nextTask ⟨[] ++ ([(w.nextTask, t)] ++ []), { w with nextTask := w.nextTask + 1 }⟩ :=
      hsingle
    obtain ⟨-, o', moved, w₁, hbefore, htended, hspawned', hend⟩ :=
      hcourse.tended hstart ⟨o, World.mem_ended_of_take htake⟩ hjobs'
    have hothers : ∀ e ∈ w₁.ended, e.1 ≠ w.nextTask := fun e he heq =>
      (htended.ended e he).2 (List.mem_append_left _ (List.mem_singleton.2 heq))
    rw [hend, World.takeEnded_endTask hothers] at htake
    cases htake
    have hadopt : Pool.adopt l.evaluator.evalWork ⟨[(w.nextTask, t)], { w with nextTask := w.nextTask + 1 }⟩ =
        ⟨[(w.nextTask, t)], { w with nextTask := w.nextTask + 1 }⟩ := Pool.adopt_eq hspawned
    refine ⟨⟨⟨moved, ?_⟩, hspawned', hothers⟩, htended⟩
    obtain heq | ⟨mid, ⟨-, hnext⟩, hrest⟩ := Relation.ReflTransGen.cases_head hbefore
    · cases heq
    · rw [next_round (congrArg Pool.tasks hadopt), hadopt] at hnext
      cases hnext
      exact hrest

/-- A task that comes to its end where nothing else is left comes to its outcome within all bounds on turns and rounds
that are large enough. -/
theorem run_of_goes (h : Goes l.evaluator.evalWork ⟨[(w.nextTask, t)], [], false, { w with nextTask := w.nextTask + 1 }⟩
      ⟨[], [], true, w'.endTask w.nextTask o⟩) (hspawned : w.spawned = []) (hspawned' : w'.spawned = [])
    (hended : ∀ e ∈ w'.ended, e.1 ≠ w.nextTask) : ∃ enough, ∀ l' : Limits, l'.depth = l.depth → l'.loop = l.loop →
      enough ≤ l'.requests → enough ≤ l'.rounds → l'.run t w = (some o, w') := by
  have hadopt : Pool.adopt l.evaluator.evalWork ⟨[(w.nextTask, t)], { w with nextTask := w.nextTask + 1 }⟩ =
      ⟨[(w.nextTask, t)], { w with nextTask := w.nextTask + 1 }⟩ := Pool.adopt_eq hspawned
  have hfirst : next l.evaluator.evalWork _ = _ := next_round (congrArg Pool.tasks hadopt)
  rw [hadopt] at hfirst
  have hgoes : Goes l.evaluator.evalWork ⟨[], [(w.nextTask, t)], true, { w with nextTask := w.nextTask + 1 }⟩
      ⟨[], [], true, w'.endTask w.nextTask o⟩ := .head hfirst h
  obtain ⟨enough, henough⟩ : ∃ enough, ∀ fuel rounds, enough ≤ fuel → enough ≤ rounds →
      Pool.run l.evaluator.evalWork fuel rounds ⟨[(w.nextTask, t)], { w with nextTask := w.nextTask + 1 }⟩ =
        ⟨[], w'.endTask w.nextTask o⟩ := hgoes.run_eq hspawned'
  refine ⟨enough, fun l' hdepth hloop hrequests hrounds => ?_⟩
  have hevaluator : l'.evaluator = l.evaluator := by rw [evaluator, evaluator, hdepth, hloop]
  unfold run
  dsimp only
  rw [hevaluator, henough _ _ hrequests hrounds]
  simp only [World.takeEnded_endTask hended]

/-- What a task comes to, it comes to within all bounds on turns and rounds that are large enough. -/
theorem Completes.run_eq (h : l.Completes t w o w') (hspawned : w.spawned = []) :
    ∃ enough, ∀ l' : Limits, l'.depth = l.depth →
    l'.loop = l.loop → enough ≤ l'.requests → enough ≤ l'.rounds → l'.run t w = (some o, w') := by
  obtain ⟨moved, hbefore⟩ := h.before
  exact run_of_goes (hbefore.goes.tail (next_ret o)) hspawned h.spawned h.ended

end Limits

end DualShell
