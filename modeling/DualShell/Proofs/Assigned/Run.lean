import Mathlib
import DualShell.Proofs.Assigned.Command
import DualShell.Proofs.Assigned.Program
import DualShell.Proofs.Machine.Frames
import DualShell.Proofs.Machine.History

/-!
# Definite assignment

A straight program that resolved on a fresh kernel finds its variables: whenever it reads one of the running activation,
or indexes into it, the frame holds a cell for it, and the only variable that a closure takes along before it has one is
that of the function being defined (`FirstRun.definitely_assigned`). It holds of programs that are steady, too. Others
may delete a variable by way of reaching an element of it, and then come to one that nothing has assigned
(`FirstRun.invented`).
-/

namespace DualShell

/-! ## Machines that answer straight code -/

namespace Store

/-- The frames of a store, and the names that have cells there. -/
def bindings (s : Store) : Bindings where
  made f := f < s.frames.size
  has f n := ∃ c, s.lookup? f n = some c
  made_of_has f n h := by
    obtain ⟨c, hc⟩ := h
    rw [lookup?_eq] at hc
    obtain ⟨frame, hframe, -⟩ := Option.bind_eq_some_iff.1 hc
    exact (Array.getElem?_eq_some_iff.1 hframe).1

/-- What is bound depends on the frames only. -/
theorem bindings_congr {s s' : Store} (h : s'.frames = s.frames) : s'.bindings = s.bindings := by
  have hlookup : ∀ f n, s'.lookup? f n = s.lookup? f n := fun f n => by rw [lookup?_eq, lookup?_eq, h]
  simp only [bindings, hlookup, h]

/-- To give a name a cell takes nothing away. -/
theorem ensure_le (s : Store) (f : FrameId) (name : String) : s.bindings.Le (s.ensure f name).2.bindings :=
  ⟨fun _ hg => Nat.lt_of_lt_of_eq hg (s.size_ensure f name).symm, fun _ _ ⟨c, hc⟩ => ⟨c, s.lookup?_ensure_of_some hc⟩⟩

/-- A name that was given a cell has one. -/
theorem ensure_has {s : Store} {f : FrameId} (h : s.bindings.made f) (name : String) :
    (s.ensure f name).2.bindings.has f name :=
  ⟨_, s.lookup?_ensure_self h name⟩

/-- To set a variable binds what giving it a cell binds. -/
theorem setVar_bindings (s : Store) (f : FrameId) (name : String) (v : Value) :
    (s.setVar f name v).bindings = (s.ensure f name).2.bindings := bindings_congr rfl

/-- A deletion takes away one name of one frame. -/
theorem unbind_has {s : Store} {f g : FrameId} {name n : String} (h : s.bindings.has g n) (hne : g ≠ f ∨ n ≠ name) :
    (s.unbind f name).bindings.has g n := by
  obtain ⟨c, hc⟩ := h
  refine ⟨c, (s.lookup?_unbind_ne fun heq => ?_).trans hc⟩
  exact hne.elim (fun hg => hg heq.1) fun hn => hn heq.2

/-- A new frame takes nothing away. -/
theorem newFrame_le (s : Store) (home : Option FrameId) : s.bindings.Le (s.newFrame home).2.bindings := by
  refine ⟨fun f hf => ?_, fun f n ⟨c, hc⟩ => ⟨c, (s.lookup?_newFrame home f n).trans hc⟩⟩
  simp only [bindings, newFrame, Array.size_push]
  exact Nat.lt_succ_of_lt hf

/-- All variables are bound when the last one is. -/
theorem setVars_has (f : FrameId) : (vars : List (String × Value)) → (s : Store) → s.bindings.made f →
    s.bindings.Le (vars.foldl (fun (store : Store) v => store.setVar f v.1 v.2) s).bindings ∧
    ∀ p ∈ vars, (vars.foldl (fun (store : Store) v => store.setVar f v.1 v.2) s).bindings.has f p.1
  | [], s, _ => ⟨.refl _, fun _ hp => nomatch hp⟩
  | v :: vars, s, h => by
    have hle : s.bindings.Le (s.setVar f v.1 v.2).bindings := s.setVar_bindings f v.1 v.2 ▸ s.ensure_le f v.1
    have hfirst : (s.setVar f v.1 v.2).bindings.has f v.1 := s.setVar_bindings f v.1 v.2 ▸ ensure_has h v.1
    obtain ⟨hrest, hothers⟩ := setVars_has f vars (s.setVar f v.1 v.2) (hle.made f h)
    exact ⟨hle.trans hrest, List.forall_mem_cons.2 ⟨hrest.has f v.1 hfirst, hothers⟩⟩

end Store

namespace Bindings

variable {s s' : Bindings} {r : Request}

/-- Requests that the contract allows carry sound values. -/
theorem Needs.sound (h : s.Needs r) : r.Sound coveredBodies := by
  cases r <;> first | exact h | trivial

/-- An answer that keeps what is bound tells no more than that. -/
theorem tells_of_leavesFrames (hr : r.LeavesFrames) {x : r.Response} (hle : s.Le s') (hx : r.Answered coveredBodies x) :
    s.Tells r x s' := by
  cases r <;> first | exact ⟨hle, hx⟩ | exact hr.elim

end Bindings

/-- The machine answers straight code as the contract promises, and starts nothing but takers of output. -/
theorem World.perform_tells {w : World} (h : w.Sound coveredBodies) (who : TaskId) {r : Request}
    (hn : w.store.bindings.Needs r) {x : r.Response} {w' : World} (hx : w.perform who r = (some x, w')) :
    w.store.bindings.Tells r x w'.store.bindings ∧ w'.Sound coveredBodies ∧ ∀ s ∈ w'.spawned, s ∈ w.spawned ∨
    s.2.Gathers := by
  have hsound := World.Sound.perform h who hn.sound
  rw [Answer.Sound, hx] at hsound
  have hanswered := hsound.2 x rfl
  by_cases hleaves : r.LeavesFrames
  · have halike := World.Alike.perform w who hleaves
    rw [hx] at halike
    refine ⟨Bindings.tells_of_leavesFrames hleaves ?_ hanswered, hsound.1, fun s hs => .inl (halike.spawned ▸ hs)⟩
    rw [Store.bindings_congr halike.frames]
    exact .refl _
  · cases r with
    | cell f name access =>
      have hmade : w.store.bindings.made f := by
        cases access with
        | read | edit => exact w.store.bindings.made_of_has f name hn
        | write => exact hn
        | capture defined => exact hn.1
      cases hx
      exact ⟨⟨w.store.ensure_le f name, Store.ensure_has hmade name⟩, hsound.1, fun _ => .inl⟩
    | unbind f name =>
      cases hx
      refine ⟨⟨fun g hg => ?_, fun g n hg hne => Store.unbind_has hg hne⟩, hsound.1, fun _ => .inl⟩
      simpa [Store.bindings, Store.unbind] using hg
    | activate home vars =>
      have hle := w.store.newFrame_le home
      have hnew : (w.store.newFrame home).2.bindings.made w.store.frames.size := by simp [Store.bindings, Store.newFrame]
      obtain ⟨hset, hvars⟩ := Store.setVars_has w.store.frames.size vars (w.store.newFrame home).2 hnew
      cases hx
      exact ⟨⟨hle.trans hset, Nat.lt_irrefl _, hset.made _ hnew, hvars⟩, hsound.1, fun _ => .inl⟩
    | taken | fixed | member =>
      cases hx
      exact ⟨⟨.refl _, hanswered⟩, hsound.1, fun _ => .inl⟩
    | startJob => exact hn.elim
    | spawn work =>
      cases hx
      refine ⟨⟨.refl _, trivial⟩, hsound.1, fun s hs => (List.mem_append.1 hs).imp_right fun hnew => ?_⟩
      cases List.mem_singleton.1 hnew
      exact hn
    | _ => exact absurd trivial hleaves

/-- A request that has to wait does nothing to variables. -/
theorem World.perform_waits {w : World} (h : w.Sound coveredBodies) (who : TaskId) {r : Request}
    (hn : w.store.bindings.Needs r) {w' : World}
    (hx : w.perform who r = (none, w')) : w'.store.bindings = w.store.bindings ∧ w'.Sound coveredBodies ∧
    w'.spawned = w.spawned := by
  have hsound := (World.Sound.perform h who hn.sound).1
  have hleaves : r.LeavesFrames := by
    cases r with
    | cell | unbind | taken | fixed | member | activate | startJob | spawn => nomatch hx
    | _ => trivial
  have halike := World.Alike.perform w who hleaves
  rw [hx] at hsound halike
  exact ⟨Store.bindings_congr halike.frames, hsound, halike.spawned⟩

/-! ## Steps -/

/-- Variables have cells when they are reached for, unless to be given a value, or to be taken along by the function
that is in them. -/
structure DefinitelyAssigned (ds : List Deed) : Prop where
  read : ∀ {who w f n c w'}, .answered who w (.cell f n .read) c w' ∈ ds → w.store.lookup? f n = some c
  edit : ∀ {who w f n c w'}, .answered who w (.cell f n .edit) c w' ∈ ds → w.store.lookup? f n = some c
  taken : ∀ {who w f n defined c w'}, .answered who w (.cell f n (.capture defined)) c w' ∈ ds →
    w.store.lookup? f n = some c ∨ defined = some n

namespace DefinitelyAssigned

/-- Before anything is done, every variable is assigned that is found. -/
theorem nil : DefinitelyAssigned [] := ⟨fun h => (nomatch h), fun h => (nomatch h), fun h => nomatch h⟩

/-- Stretches in each of which variables are assigned when they are found make one stretch. -/
theorem append {ds ds' : List Deed} (h : DefinitelyAssigned ds) (h' : DefinitelyAssigned ds') :
    DefinitelyAssigned (ds ++ ds') :=
  ⟨fun hd => (List.mem_append.1 hd).elim h.read h'.read, fun hd => (List.mem_append.1 hd).elim h.edit h'.edit,
    fun hd => (List.mem_append.1 hd).elim h.taken h'.taken⟩

/-- What is allowed to be asked is about variables that have cells. -/
theorem answered {who : TaskId} {w w' : World} {r : Request} {x : r.Response} (hn : w.store.bindings.Needs r)
    (hx : w.perform who r = (some x, w')) : DefinitelyAssigned [.answered who w r x w'] := by
  have found : ∀ {f n access c}, w.store.bindings.has f n → w.perform who (.cell f n access) = (some c, w') →
      w.store.lookup? f n = some c := by
    rintro f n access c ⟨c', hc'⟩ hx
    have hc : some (w.store.ensure f n).1 = some c := congrArg Prod.fst hx
    rw [w.store.ensure_of_lookup? hc'] at hc
    exact hc'.trans hc
  refine ⟨fun hd => ?_, fun hd => ?_, fun hd => ?_⟩
  · cases List.mem_singleton.1 hd
    exact found hn hx
  · cases List.mem_singleton.1 hd
    exact found hn hx
  · cases List.mem_singleton.1 hd
    exact hn.2.imp_left fun hhas => found hhas hx

/-- Requests that leave frames alone reach for no variable. -/
theorem quiet {who : TaskId} {w w' : World} {r : Request} {x : r.Response} (hr : r.LeavesFrames) :
    DefinitelyAssigned [.answered who w r x w'] := by
  refine ⟨fun hd => ?_, fun hd => ?_, fun hd => ?_⟩ <;> cases List.mem_singleton.1 hd <;> exact hr.elim

/-- The end of a task finds no variable. -/
theorem ended (who : TaskId) (o : Outcome) : DefinitelyAssigned [.ended who o] := by
  refine ⟨fun hd => ?_, fun hd => ?_, fun hd => ?_⟩ <;> nomatch List.mem_singleton.1 hd

end DefinitelyAssigned

/-- A variable that has no cell is read or indexed into. -/
def Deed.invents : Deed → Bool
  | .answered _ w (.cell f n .read) _ _ => (w.store.lookup? f n).isNone
  | .answered _ w (.cell f n .edit) _ _ => (w.store.lookup? f n).isNone
  | _ => false

/-- Where every variable that is found is assigned, none is made up. -/
theorem DefinitelyAssigned.not_invents {ds : List Deed} (h : DefinitelyAssigned ds) : ds.any Deed.invents = false := by
  refine List.any_eq_false.2 fun d hd => ?_
  unfold Deed.invents
  split
  · simp [h.read hd]
  · simp [h.edit hd]
  · exact Bool.false_ne_true

/-- The contract of code that has nothing to do with variables and starts nothing. -/
def apart : Discipline where
  State := Unit
  Later _ _ := True
  quality _ := coveredBodies
  Needs _ r := r.LeavesFrames ∧ r.Sound coveredBodies
  Tells _ r x _ := r.Answered coveredBodies x
  refl _ := trivial
  trans _ _ := trivial
  quality_mono _ := .refl _
  needs_plain hp hs := ⟨hp.leavesFrames, hs⟩
  later_of_tells _ _ := trivial
  answered_of_tells _ hx := hx

/-- A task that leaves variables alone, and ends soundly. -/
def Task.Apart (t : Task Outcome) : Prop := t.Keeps apart (fun o _ => Outcome.Sound coveredBodies o) ()

/-- Those who take output leave variables alone. -/
theorem Work.Gathers.stays_apart {work : Work} (h : work.Gathers) (e : Evaluator) : (e.evalWork work).Apart := by
  cases work with
  | gather side c k ctx => exact (gather_harmless (K := apart.aside) side c k e.bound ()).outcome
  | form | job => exact h.elim

/-- At most one task has to do with variables, and it finds them. -/
structure Pool.Finds (p : Pool) : Prop where
  sound : p.world.Sound coveredBodies
  begun : ∀ s ∈ p.world.spawned, s.2.Gathers
  one : p.tasks.Pairwise fun t u => t.2.Apart ∨ u.2.Apart
  tasks : ∀ t ∈ p.tasks, t.2.Apart ∨ t.2.Keeps finding (fun o _ => Outcome.Sound coveredBodies o) p.world.store.bindings

namespace Pool.Finds

variable {before after : List (TaskId × Task Outcome)} {t t' : TaskId × Task Outcome} {w w' : World}

/-- The tasks after a turn are the one that had it and those that were there before. -/
theorem mem_replaced {u : TaskId × Task Outcome} (h : u ∈ before ++ t' :: after) : u = t' ∨ u ∈ before ++ t :: after := by
  simp only [List.mem_append, List.mem_cons] at h ⊢
  tauto

/-- The others are part of all. -/
theorem sublist : (before ++ after).Sublist (before ++ t :: after) :=
  (List.Sublist.refl _).append (List.sublist_cons_self _ _)

/-- Beside a task that has to do with variables there are only others. -/
theorem others (h : Pool.Finds ⟨before ++ t :: after, w⟩) (ht : ¬t.2.Apart) : ∀ u ∈ before ++ after, u.2.Apart := by
  obtain ⟨-, hrest, hbefore⟩ := List.pairwise_append.1 h.one
  intro u hu
  rcases List.mem_append.1 hu with hu | hu
  · exact (hbefore u hu t List.mem_cons_self).resolve_right ht
  · exact ((List.pairwise_cons.1 hrest).1 u hu).resolve_left ht

/-- A task goes on that leaves variables alone. -/
theorem apart_step (h : Pool.Finds ⟨before ++ t :: after, w⟩) (ht' : t'.2.Apart) (hsound : w'.Sound coveredBodies)
    (hbegun : w'.spawned = w.spawned) (hbindings : w'.store.bindings = w.store.bindings) :
    Pool.Finds ⟨before ++ t' :: after, w'⟩ where
  sound := hsound
  begun := hbegun ▸ h.begun
  one := by
    obtain ⟨hfirst, hrest, hbefore⟩ := List.pairwise_append.1 h.one
    refine List.pairwise_append.2 ⟨hfirst, List.pairwise_cons.2 ⟨fun u _ => .inl ht', (List.pairwise_cons.1 hrest).2⟩,
      fun u hu v hv => ?_⟩
    rcases List.mem_cons.1 hv with rfl | hv
    · exact .inr ht'
    · exact hbefore u hu v (List.mem_cons_of_mem _ hv)
  tasks u hu := by
    rcases mem_replaced (t := t) hu with rfl | hu
    · exact .inl ht'
    · exact hbindings ▸ h.tasks u hu

/-- The task goes on that has to do with variables. -/
theorem finding_step (h : Pool.Finds ⟨before ++ t :: after, w⟩) (ht : ¬t.2.Apart) (hsound : w'.Sound coveredBodies)
    (hbegun : ∀ s ∈ w'.spawned, s ∈ w.spawned ∨ s.2.Gathers)
    (ht' : t'.2.Keeps finding (fun o _ => Outcome.Sound coveredBodies o) w'.store.bindings) :
    Pool.Finds ⟨before ++ t' :: after, w'⟩ where
  sound := hsound
  begun s hs := (hbegun s hs).elim (h.begun s) id
  one := by
    have hothers := h.others ht
    obtain ⟨hfirst, hrest, -⟩ := List.pairwise_append.1 h.one
    refine List.pairwise_append.2 ⟨hfirst, List.pairwise_cons.2 ⟨fun u hu => .inr (hothers u (List.mem_append_right _ hu)),
      (List.pairwise_cons.1 hrest).2⟩, fun u hu _ _ => .inl (hothers u (List.mem_append_left _ hu))⟩
  tasks u hu := by
    rcases List.mem_append.1 hu with hu | hu
    · exact .inl (h.others ht u (List.mem_append_left _ hu))
    · rcases List.mem_cons.1 hu with rfl | hu
      · exact .inr ht'
      · exact .inl (h.others ht u (List.mem_append_right _ hu))

/-- A task is gone. -/
theorem drop (h : Pool.Finds ⟨before ++ t :: after, w⟩) (hsound : w'.Sound coveredBodies) (hbegun : w'.spawned = w.spawned)
    (hbindings : w'.store.bindings = w.store.bindings) : Pool.Finds ⟨before ++ after, w'⟩ where
  sound := hsound
  begun := hbegun ▸ h.begun
  one := h.one.sublist sublist
  tasks u hu := hbindings ▸ h.tasks u (sublist.subset hu)

/-- What was started is taken up: takers of output. -/
theorem takeUp {p : Pool} (h : p.Finds) (l : Limits) : (p.adopt l.evaluator.evalWork).Finds where
  sound := ⟨h.sound.store, h.sound.channels, h.sound.collectors, h.sound.jobs, h.sound.ended⟩
  begun := List.forall_mem_nil _
  one := by
    have hnew : ∀ t ∈ p.world.spawned.map fun s => (s.1, l.evaluator.evalWork s.2), t.2.Apart :=
      List.forall_mem_map.2 fun s hs => (h.begun s hs).stays_apart _
    exact List.pairwise_append.2 ⟨h.one, List.pairwise_of_forall_mem_list fun t ht _ _ => .inl (hnew t ht),
      fun _ _ u hu => .inr (hnew u hu)⟩
  tasks t ht := by
    rcases List.mem_append.1 ht with ht | ht
    · exact h.tasks t ht
    · obtain ⟨s, hs, rfl⟩ := List.mem_map.1 ht
      exact .inl ((h.begun s hs).stays_apart _)

/-- Tasks of which one finds its variables go on to. -/
theorem step {p p' : Pool} {ds : List Deed} (h : p.Finds) (hs : p.Step ds p') : p'.Finds ∧ DefinitelyAssigned ds := by
  cases hs with
  | @answer before who r next after w x w' hx =>
    by_cases hapart : Task.Apart (.request r next)
    · obtain ⟨⟨hleaves, hsends⟩, hnext⟩ := hapart
      have hsound := World.Sound.perform h.sound who hsends
      have halike := World.Alike.perform w who hleaves
      rw [Answer.Sound, hx] at hsound
      rw [hx] at halike
      exact ⟨h.apart_step (hnext x () (hsound.2 x rfl)) hsound.1 halike.spawned (Store.bindings_congr halike.frames),
        .quiet hleaves⟩
    · obtain ⟨hneeds, hnext⟩ := (h.tasks (who, .request r next) (by simp)).resolve_left hapart
      obtain ⟨htells, hsound, hbegun⟩ := w.perform_tells h.sound who hneeds hx
      exact ⟨h.finding_step hapart hsound hbegun (hnext x _ htells), .answered hneeds hx⟩
  | @wait before who r next after w w' hx =>
    by_cases hapart : Task.Apart (.request r next)
    · have halike := World.Alike.perform w who hapart.1.1
      have hsound := (World.Sound.perform h.sound who hapart.1.2).1
      rw [hx] at halike hsound
      exact ⟨h.apart_step hapart hsound halike.spawned (Store.bindings_congr halike.frames), .nil⟩
    · have hfinds := (h.tasks (who, .request r next) (by simp)).resolve_left hapart
      obtain ⟨hbindings, hsound, hspawned⟩ := w.perform_waits h.sound who hfinds.1 hx
      exact ⟨h.finding_step hapart hsound (fun s hs => .inl (hspawned ▸ hs)) (hbindings.symm ▸ hfinds), .nil⟩
  | @finish before who o after w =>
    have ho : Outcome.Sound coveredBodies o := (h.tasks (who, .ret o) (by simp)).elim id id
    exact ⟨h.drop (h.sound.endTask who ho) rfl rfl, .ended who o⟩
  | giveUp => exact ⟨h.drop h.sound rfl rfl, .nil⟩
  | takeUp l => exact ⟨h.takeUp l, .nil⟩

/-- While tasks go on that find what they look for, every variable that is found is assigned. -/
theorem goes {p p' : Pool} {ds : List Deed} (h : p.Finds) (hgoes : p.Goes ds p') : DefinitelyAssigned ds := by
  induction hgoes with
  | refl p => exact .nil
  | step hs _ ih => exact (h.step hs).2.append (ih (h.step hs).1)

end Pool.Finds

/-! ## Programs on a fresh kernel -/

/-- A machine with a kernel on which nothing was run. -/
def World.withKernel (files : FileTree) (source : ModuleSource) (config : Config) (env : Environment) : World :=
  ((World.create files source).addKernel config env).2

/-- What can happen from the start of a program on a fresh kernel on: the deeds, and where the tasks stand after them. -/
inductive FirstRun (chunk : Source.Chunk) : List Deed → Pool → Prop
  | intro {files source config env src block w kernel main out err w' ds p} {values : List Value} (l : Limits)
      (input : Bytes)
      (hcompile : (World.withKernel files source config env).compile 0 chunk src = (.ok block, w))
      (hk : w.kernel? 0 = some kernel)
      (hvalues : ∀ v ∈ values, Made [] v)
      (hlaunch : w.launch l.evaluator 0 kernel.globals block input values = (main, out, err, w'))
      (hgoes : Pool.Goes ⟨[(w'.nextTask, main)], { w' with nextTask := w'.nextTask + 1 }⟩ ds p) : FirstRun chunk ds p

namespace Sample

/-- The deeds of a program on the machine. -/
def deeds (bodies : List Source.Body) : List Deed :=
  match machine.compile 0 (chunk bodies) "" with
  | (.ok block, w) =>
    let (main, _, _, w) := w.launch limits.evaluator 0 0 block [] []
    Pool.deeds limits.evaluator.evalWork limits.requests limits.rounds ⟨[(w.nextTask, main)],
      { w with nextTask := w.nextTask + 1 }⟩
  | (.error _, _) => []

/-- The deeds of a program that resolves are those of a run. -/
theorem firstRun (bodies : List Source.Body) (h : (machine.compile 0 (chunk bodies) "").1.toBool = true) :
    ∃ p, FirstRun (chunk bodies) (deeds bodies) p := by
  unfold deeds
  rcases hcompile : machine.compile 0 (chunk bodies) "" with ⟨compiled, w⟩
  rw [hcompile] at h
  cases compiled with
  | error e => cases h
  | ok block =>
    obtain ⟨scope, -, rfl⟩ := History.compile_block hcompile
    have hnone : ∀ v ∈ ([] : List Value), Made [] v := List.forall_mem_nil _
    exact ⟨_, .intro limits [] hcompile rfl hnone rfl (Pool.Goes.run limits limits.requests limits.rounds _)⟩

end Sample

namespace FirstRun

variable {chunk : Source.Chunk} {ds : List Deed} {p : Pool}

/-- The run is the end of a history. -/
theorem history (h : FirstRun chunk ds p) : ∃ earlier, History Made (earlier ++ ds) p := by
  obtain @⟨files, source, config, env, src, block, w, kernel, main, out, err, w', ds, p, values, l, input, hcompile, hk,
    hvalues, hlaunch, hgoes⟩ := h
  have hkernel : (World.withKernel files source config env).kernel? 0 = some ⟨config, env, .empty, 0, []⟩ := rfl
  have hcompiled := (History.addKernel config env (@History.create Made files source)).compile hkernel hcompile
  have hmade : ∀ v ∈ values, Made [.compiled 0 block (w.names 0)] v := fun v hv q _ => hvalues v hv q fun _ hu => nomatch hu
  exact ⟨_, (hcompiled.launch l input (List.mem_singleton_self _) hk hmade hlaunch).goes hgoes⟩

/-- A program that starts on a fresh kernel is all that runs, and finds its variables if it is straight and steady. -/
theorem start {files : FileTree} {source : ModuleSource} {config : Config} {env : Environment} {src : String}
    {block : Code.Block}
    {w : World} {kernel : Kernel} {l : Limits} {input : Bytes} {values : List Value} {main : Task Outcome}
    {out err : CollectorId} {w' : World}
    (hcompile : (World.withKernel files source config env).compile 0 chunk src = (.ok block, w))
    (hk : w.kernel? 0 = some kernel)
    (hvalues : ∀ v ∈ values, Made [] v)
    (hlaunch : w.launch l.evaluator 0 kernel.globals block input values = (main, out, err, w'))
    (hstraight : chunk.Everywhere Source.Part.Straight) (hsteady : chunk.Everywhere Source.Part.Steady) :
    Pool.Finds ⟨[(w'.nextTask, main)], { w' with nextTask := w'.nextTask + 1 }⟩ := by
  obtain ⟨scope, hblock, rfl⟩ := History.compile_block hcompile
  have hcovers : Covers (fun _ => False) block.touches := Source.Chunk.compile_covers hstraight hsteady hblock
  have hsound : World.Sound coveredBodies ((World.withKernel files source config env).modifyKernel 0 fun kernel =>
      { kernel with names := scope.globals }) := ((World.Sound.create files source).addKernel config env).modifyKernel 0
        fun _ hj => hj
  have hstarted : World.Sound coveredBodies (World.launch _ l.evaluator 0 kernel.globals block input values).2.2.2 :=
    hsound.launch fun v hv => hvalues v hv coveredBodies fun _ hu => nomatch hu
  cases hk
  cases hlaunch
  refine ⟨⟨hstarted.store, hstarted.channels, hstarted.collectors, hstarted.jobs, hstarted.ended⟩, List.forall_mem_nil _,
    List.pairwise_singleton _ _, fun t ht => .inr ?_⟩
  cases List.mem_singleton.1 ht
  have he : l.evaluator.Finds := Evaluator.atDepth_finds l.loop l.depth
  exact (he.evalBlock block _ _ _ hcovers ⟨Nat.zero_lt_one, fun _ hn => hn.elim⟩).outcome

/-- The program `x = [a]; x[0] = b; fn again { again }; put $x`. -/
def steady : List Source.Body :=
  [Sample.assign "x" (.list [.bare "a"]), .assign ⟨[⟨"x", [.bare "0"], false⟩], [.bare "b"]⟩,
    Sample.command (.bare "fn") [.bare "again", Sample.lambda [Sample.command (.bare "again") []]],
    Sample.command (.bare "put") [Sample.value "x"]]

/-- A straight and steady program finds its variables. -/
theorem definitely_assigned (h : FirstRun chunk ds p) (hstraight : chunk.Everywhere Source.Part.Straight)
    (hsteady : chunk.Everywhere Source.Part.Steady) : DefinitelyAssigned ds := by
  obtain ⟨l, input, hcompile, hk, hvalues, hlaunch, hgoes⟩ := h
  exact (start hcompile hk hvalues hlaunch hstraight hsteady).goes hgoes

/-- An element is changed, and a function knows itself. -/
theorem definitely_assigned_steady : ∃ p, FirstRun (Sample.chunk steady) (Sample.deeds steady) p ∧
    (Sample.chunk steady).Everywhere Source.Part.Straight ∧ (Sample.chunk steady).Everywhere Source.Part.Steady ∧
    DefinitelyAssigned (Sample.deeds steady) := by
  let again := Sample.chunk [Sample.command (.bare "again") []]
  have hparts : (Sample.chunk steady).parts = [.pipeline 1 false, .target "x" [], .pipeline 1 false, .target "x" [.bare "0"],
    .pipeline 1 false, .special .define, .lambda again, .pipeline 1 false] := rfl
  have hbody : again.parts = [.pipeline 1 false] := rfl
  obtain ⟨p, hrun⟩ := Sample.firstRun steady (by decide +kernel)
  have hstraight : (Sample.chunk steady).Everywhere Source.Part.Straight := by
    refine .intro (by decide) fun body hlambda => ?_
    obtain rfl : body = again := by simpa [hparts] using hlambda
    exact .flat (by decide) rfl
  have hsteady : (Sample.chunk steady).Everywhere Source.Part.Steady := by
    refine .intro (by simp [hparts, Source.Part.Steady, Source.Stays, Source.drops, Source.wordsParts, Source.Word.parts])
      fun body hlambda => ?_
    obtain rfl : body = again := by simpa [hparts] using hlambda
    exact .flat (by simp [hbody, Source.Part.Steady]) rfl
  exact ⟨p, hrun, hstraight, hsteady, hrun.definitely_assigned hstraight hsteady⟩

/-- The program `x = [a]; x[(del x; put 0)] = b`. -/
def unsteady : List Source.Body :=
  [Sample.assign "x" (.list [.bare "a"]),
    .assign ⟨[⟨"x",
      [.capture (Sample.chunk [Sample.command (.bare "del") [.bare "x"], Sample.command (.bare "put") [.bare "0"]])],
      false⟩], [.bare "b"]⟩]

/-- The program `x = a; del x[]; put $x`. -/
def unindexed : List Source.Body :=
  [Sample.assign "x" (.bare "a"), Sample.command (.bare "del") [.index (.bare "x") []],
    Sample.command (.bare "put") [Sample.value "x"]]

/-- A straight program may delete a variable by way of reaching an element of it, and change it then; and it may delete
a variable by deleting an element of it at no index, and read it then. -/
theorem invented : ((Sample.chunk unsteady).Everywhere Source.Part.Straight ∧
      ∃ ds p, FirstRun (Sample.chunk unsteady) ds p ∧ ¬DefinitelyAssigned ds) ∧
    (Sample.chunk unindexed).Everywhere Source.Part.Straight ∧
      ∃ ds p, FirstRun (Sample.chunk unindexed) ds p ∧ ¬DefinitelyAssigned ds := by
  have invents : ∀ {bodies : List Source.Body}, (Sample.machine.compile 0 (Sample.chunk bodies) "").1.toBool = true →
      (Sample.deeds bodies).any Deed.invents = true → ∃ ds p, FirstRun (Sample.chunk bodies) ds p ∧
      ¬DefinitelyAssigned ds := by
    intro bodies hcompile hany
    obtain ⟨p, hrun⟩ := Sample.firstRun bodies hcompile
    exact ⟨_, p, hrun, fun h => Bool.false_ne_true (h.not_invents.symm.trans hany)⟩
  have hunsteady : (Sample.deeds unsteady).any Deed.invents = true := by cbv
  have hunindexed : (Sample.deeds unindexed).any Deed.invents = true := by cbv
  exact ⟨⟨.flat (by decide) rfl, invents (by decide +kernel) hunsteady⟩, .flat (by decide) rfl,
    invents (by decide +kernel) hunindexed⟩

end FirstRun

end DualShell
