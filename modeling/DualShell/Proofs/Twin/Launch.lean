import DualShell.Proofs.Machine.Tended
import DualShell.Proofs.Twin.Moment

/-!
# Programs that are launched again

A program at a top level reads an input that is empty, writes to two collectors and runs as a task. What it does after
some point, it also does when it is launched at that point again: with another input, other collectors and another task
(`World.Twin.relaunch`). Whatever such a program comes to, its counterpart comes to, too (`Limits.Completes.goesOn`,
`Limits.Completes.of_before`).
-/

namespace DualShell

/-! ## Numbers that are moved -/

/-- The numbers in the list move to the end, and what is there makes room. -/
def relocate (moved : List Nat) (size i : Nat) : Nat :=
  if i ∈ moved then size + moved.idxOf i else if i < size then i else i + moved.length

section Numbers

variable {moved : List Nat} {size i : Nat}

/-- What is moved goes behind everything, in the order in which it is listed. -/
theorem relocate_of_mem (h : i ∈ moved) : relocate moved size i = size + moved.idxOf i := if_pos h

/-- What is not moved keeps its number. -/
theorem relocate_of_lt (hnot : i ∉ moved) (hlt : i < size) : relocate moved size i = i := by
  rw [relocate, if_neg hnot, if_pos hlt]

/-- What is new goes behind what was moved. -/
theorem relocate_add (hmoved : ∀ i ∈ moved, i < size) (i : Nat) :
    relocate moved size (size + i) = size + moved.length + i := by
  have hnot : size + i ∉ moved := fun h => Nat.not_lt.2 (Nat.le_add_right size i) (hmoved _ h)
  rw [relocate, if_neg hnot, if_neg (Nat.not_lt.2 (Nat.le_add_right size i)), Nat.add_right_comm]

/-- Different numbers are different after they were moved. -/
theorem relocate_injective (moved : List Nat) (size : Nat) : Function.Injective (relocate moved size) := by
  intro i j h
  have hbound : ∀ {i}, i ∈ moved → moved.idxOf i < moved.length := List.idxOf_lt_length_of_mem
  unfold relocate at h
  by_cases hi : i ∈ moved <;> by_cases hj : j ∈ moved
  · rw [if_pos hi, if_pos hj] at h
    exact (List.idxOf_inj hi).1 (Nat.add_left_cancel h)
  · rw [if_pos hi, if_neg hj] at h
    have hlt := hbound hi
    split at h <;> omega
  · rw [if_neg hi, if_pos hj] at h
    have hlt := hbound hj
    split at h <;> omega
  · rw [if_neg hi, if_neg hj] at h
    split at h <;> split at h <;> omega

/-- Things in a table are moved to the end of its counterpart, and what was in their places may change. -/
theorem Tables.relocate {α : Type} {Like Like' : Nat → α → α → Prop} {xs xs' zs ys : Array α} (h : Tables id Like xs xs')
    (hmoved : ∀ i ∈ moved, i < xs.size) (hsize : zs.size = xs'.size) (hothers : ∀ i, i ∉ moved → zs[i]? = xs'[i]?)
    (hlike : ∀ i, i ∉ moved → ∀ x x', Like i x x' → Like' i x x') (hys : ys.size = moved.length)
    (hmove : ∀ i ∈ moved, Option.Rel (Like' i) xs[i]? ys[moved.idxOf i]?) :
    Tables (DualShell.relocate moved xs.size) Like' xs (zs ++ ys) := by
  have hsame : zs.size = xs.size := hsize.trans (h.next 0).symm
  refine ⟨fun i => ?_, fun i => ?_⟩
  · by_cases hi : i ∈ moved
    · rw [relocate_of_mem hi, Array.getElem?_append_right (by omega), hsame, Nat.add_sub_cancel_left]
      exact hmove i hi
    · by_cases hlt : i < xs.size
      · have hrel : Option.Rel (Like i) xs[i]? xs'[i]? := h.entries i
        rw [relocate_of_lt hi hlt, Array.getElem?_append_left (by omega), hothers i hi]
        rcases hx : xs[i]? with _ | x <;> rcases hx' : xs'[i]? with _ | x' <;> rw [hx, hx'] at hrel <;> cases hrel
        · exact .none
        · exact .some (hlike i hi x x' ‹_›)
      · obtain ⟨j, rfl⟩ := Nat.exists_eq_add_of_le (Nat.not_lt.1 hlt)
        rw [relocate_add hmoved, Array.getElem?_eq_none (by omega),
          Array.getElem?_eq_none (by rw [Array.size_append]; omega)]
        exact .none
  · rw [relocate_add hmoved, Array.size_append, hsame, hys]

end Numbers

namespace Renaming

/-- The same numbers; code runs on the kernel, and nobody writes to the input. -/
def launched (k : KernelId) (input : ChannelId) : Renaming := { plain with pipe := (· ≠ input), home := (· = k) }

/-- What a collector of a machine holds. -/
def held (w : World) (i : CollectorId) : Collector := w.collectors[i]?.getD ⟨[], []⟩

/-- A program that runs on a machine is launched again: with another input, other collectors that hold nothing yet, and
another task. -/
def relaunched (k : KernelId) (input : ChannelId) (outs : List CollectorId) (main : TaskId) (w : World) : Renaming where
  channel := relocate [input] w.channels.size
  collector := relocate outs w.collectors.size
  task := relocate [main] w.nextTask
  channel_injective := relocate_injective _ _
  collector_injective := relocate_injective _ _
  task_injective := relocate_injective _ _
  pipe := (· ≠ input)
  before i := if i ∈ outs then held w i else ⟨[], []⟩
  home := (· = k)

end Renaming

open Renaming

namespace World

variable {w v u : World} {k : KernelId} {input : ChannelId} {outs : List CollectorId} {main : TaskId}

/-- A machine whose kernels know other names. -/
theorem twin_launched {kernels : Array Kernel}
    (hkernels : ∀ k : KernelId, kernels[k]?.map Kernel.unnamed = w.kernels[k]?.map Kernel.unnamed)
    (hinput : input < w.channels.size) (hidle : ∀ c, w.channels[input]? = some c → c.Like .idle)
    (hspawned : w.spawned = []) : w.Twin (launched k input) { w with kernels } where
  store := rfl
  fresh := rfl
  handles := rfl
  files := rfl
  source := rfl
  modules := rfl
  kernel? := hkernels
  channels := by
    refine ⟨fun i => ?_, fun _ => rfl⟩
    show Option.Rel _ w.channels[i]? w.channels[i]?
    rcases hc : w.channels[i]? with _ | c
    · exact .none
    · refine .some ⟨.refl c, fun hnot => hidle c ?_⟩
      rwa [← not_not.1 hnot]
  pipes i hi := fun heq => absurd hi (Nat.not_le.2 (heq ▸ hinput))
  collectors := .refl fun _ x => by
    unfold Collector.Twin
    simp [launched, plain]
  own _ _ := rfl
  nextTask _ := rfl
  spawned := by simp [hspawned]
  usable := by simp [hspawned]
  ended := (List.map_id _).symm

/-- At any point a program has its counterpart in the same program that was just launched again. -/
theorem Twin.relaunched (h : v.Twin (launched k input) u) (hinput : input < v.channels.size)
    (houts : ∀ i ∈ outs, i < v.collectors.size)
    (hmain : main < v.nextTask) (hended : ∀ e ∈ v.ended, e.1 < v.nextTask ∧ e.1 ≠ main) (hspawned : v.spawned = [])
    {kernels : Array Kernel} (hkernels : ∀ k : KernelId, kernels[k]?.map Kernel.unnamed = u.kernels[k]?.map Kernel.unnamed)
    {collectors : Array Collector} (hsize : collectors.size = u.collectors.size)
    (hothers : ∀ i, i ∉ outs → collectors[i]? = u.collectors[i]?) :
    v.Twin (Renaming.relaunched k input outs main v)
      { u with
        channels := u.channels ++ #[.idle]
        collectors := collectors ++ Array.replicate outs.length ⟨[], []⟩
        kernels
        nextTask := u.nextTask + 1 } where
  store := h.store
  fresh := h.fresh
  handles := h.handles
  files := h.files
  source := h.source
  modules := h.modules
  kernel? k := (hkernels k).trans (h.kernel? k)
  channels := by
    refine h.channels.relocate (List.forall_mem_singleton.2 hinput) rfl (fun _ _ => rfl) (fun _ _ _ _ hc =>
      ⟨hc.like, hc.idle⟩) rfl (List.forall_mem_singleton.2 ?_)
    obtain ⟨hnone, -⟩ | ⟨c, c', hc, -, htwin⟩ := h.channel_cases input
    · exact absurd (Array.getElem?_eq_none_iff.1 hnone) (Nat.not_le.2 hinput)
    · have hidle : c.Like .idle := htwin.idle fun hne => hne rfl
      rw [hc, List.idxOf_cons_self]
      exact .some ⟨hidle, fun _ => hidle⟩
  pipes i hi := fun heq => absurd hi (Nat.not_le.2 (heq ▸ hinput))
  collectors := by
    refine h.collectors.relocate houts hsize hothers (fun i hi x x' hx => ?_) Array.size_replicate fun i hi => ?_
    · unfold Collector.Twin at hx ⊢
      rw [hx]
      simp [Renaming.relaunched, launched, plain, hi]
    · have hlt : outs.idxOf i < outs.length := List.idxOf_lt_length_of_mem hi
      rw [Array.getElem?_eq_getElem (houts i hi), Array.getElem?_replicate, if_pos hlt]
      refine .some ?_
      unfold Collector.Twin
      simp [Renaming.relaunched, held, hi, houts i hi]
  own i hi := if_neg fun hmem => absurd hi (Nat.not_le.2 (houts i hmem))
  nextTask i := by
    have hnext : v.nextTask = u.nextTask := h.nextTask 0
    show relocate [main] v.nextTask (v.nextTask + i) = _
    rw [relocate_add (List.forall_mem_singleton.2 hmain), hnext]
    rfl
  spawned := by simp [h.spawned, hspawned]
  usable := by simp [hspawned]
  ended := by
    rw [h.ended]
    refine List.map_congr_left fun e he => ?_
    obtain ⟨hlt, hne⟩ := hended e he
    exact congrArg (·, e.2) (relocate_of_lt (fun hmem => hne (List.mem_singleton.1 hmem)) hlt).symm

end World

/-! ## What a run leaves as it is -/

namespace World

/-- Reading does not touch what collects. -/
theorem reading_collectors {α : Type} (w : World) (inlet : Inlet) (f : Channel → Step α × Channel)
    (g : OpenFile → Step α × OpenFile) : (w.reading inlet f g).2.collectors = w.collectors := by
  unfold reading
  split <;> dsimp only <;> split <;> rfl

/-- Whether a step is through does not matter for what it leaves. -/
theorem answerStep_world {α : Type} (x : Step α × World) : (answerStep x).2 = x.2 := by
  obtain ⟨result, w⟩ := x
  cases result <;> rfl

/-- No request takes a collector away. -/
theorem collectors_le (w : World) (who : TaskId) (r : Request) :
    w.collectors.size ≤ (w.perform who r).2.collectors.size := by
  have hsame : ∀ {w' : World}, w'.collectors = w.collectors → w.collectors.size ≤ w'.collectors.size := fun h =>
    Nat.le_of_eq (congrArg Array.size h).symm
  cases r with
  | openCollector => exact Nat.le_of_lt (Nat.lt_of_lt_of_eq (Nat.lt_succ_self _) (Array.size_push _).symm)
  | takeCollected i =>
    simp only [perform, takeCollected]
    split
    · exact Nat.le_refl _
    · exact Nat.le_of_eq Array.size_setIfInBounds.symm
  | write o data =>
    cases o with
    | channel i | file i =>
      simp only [perform, write]
      split
      · exact Nat.le_refl _
      · first | exact Nat.le_refl _ | (split <;> exact Nat.le_refl _)
    | collector i => exact Nat.le_of_eq Array.size_modify.symm
  | put o v =>
    cases o with
    | channel i =>
      simp only [perform, put]
      split
      · exact Nat.le_refl _
      · split <;> exact Nat.le_refl _
    | file i => exact Nat.le_refl _
    | collector i => exact Nat.le_of_eq Array.size_modify.symm
  | line | toEnd | upTo =>
    refine hsame ?_
    simp only [perform, answerStep_world]
    exact reading_collectors _ _ _ _
  | item inlet m =>
    refine hsame ?_
    have hitem : (w.item who inlet m).2.2.collectors = w.collectors := by
      cases inlet with
      | channel i =>
        unfold item
        dsimp only
        split <;> rfl
      | file i =>
        show (w.line who (.file i)).2.collectors = w.collectors
        exact reading_collectors _ _ _ _
    simp only [perform]
    split <;> rename_i heq <;> rw [heq] at hitem <;> exact hitem
  | closeOutlet o | closeInlet o => cases o <;> exact Nat.le_refl _
  | openFile path mode =>
    refine hsame ?_
    simp only [perform]
    unfold openFile
    split <;> split <;> rfl
  | edit c change =>
    refine hsame ?_
    unfold perform Store.update
    split
    rfl
  | join id =>
    refine hsame ?_
    simp only [perform]
    split
    · rfl
    · rename_i htake
      unfold takeEnded at htake
      split at htake <;> cases htake
      rfl
  | claimModule | openChannel =>
    refine hsame ?_
    simp only [perform]
    split <;> rfl
  | _ => exact Nat.le_refl _

end World

namespace Limits.Completes

variable {l : Limits} {t : Task Outcome} {w w' : World} {o : Outcome}

/-- What steps do to a machine, a task that comes to an outcome does. -/
theorem leads (h : l.Completes t w o w') {R : World → World → Prop} (hrefl : ∀ w, R w w)
    (htrans : ∀ {w w' w''}, R w w' → R w' w'' → R w w'')
    (hstep : ∀ {p ds p'}, Pool.Step p ds p' → R p.world p'.world) : R { w with nextTask := w.nextTask + 1 } w' := by
  obtain ⟨moved, hbefore⟩ := h.before
  generalize hm : (⟨[(w.nextTask, .ret o)], [], moved, w'⟩ : Moment) = m at hbefore
  suffices hall : R { w with nextTask := w.nextTask + 1 } m.world by rwa [← hm] at hall
  clear hm
  induction hbefore with
  | refl => exact hrefl _
  | tail _ hnext ih =>
    obtain ⟨ds, hs⟩ := Moment.next_step hnext.2
    exact htrans ih (hstep hs)

/-- A task that completes leaves the frames of the kernels as they are. -/
theorem tops (h : l.Completes t w o w') : w'.tops = w.tops :=
  h.leads (R := fun w w' => w'.tops = w.tops) (fun _ => rfl) (fun h h' => h'.trans h) fun hs => hs.tops

/-- A task that completes takes no collector away. -/
theorem collectors_le (h : l.Completes t w o w') : w.collectors.size ≤ w'.collectors.size := by
  refine h.leads (R := fun w w' => w.collectors.size ≤ w'.collectors.size) (fun _ => Nat.le_refl _) Nat.le_trans fun hs => ?_
  cases hs with
  | @answer _ who r _ _ w _ _ hx | @wait _ who r _ _ w _ hx =>
    have hle := w.collectors_le who r
    rwa [hx] at hle
  | finish | giveUp | takeUp => exact Nat.le_refl _

end Limits.Completes

/-! ## What counterparts come to -/

open Moment

namespace Limits.Completes

variable {l : Limits} {ρ : Renaming} {main : TaskId} {owed : Multiset TaskId} {t t' : Task Outcome} {w w' v v' : World}
    {o : Outcome}
  {moved : Bool}

section

variable (htask : Task.Twin ρ.scheme (fun _ o o' => o' = o) owed t t') (hmain : ρ.task main = w'.nextTask)
  (hw : w.Twin ρ { w' with nextTask := w'.nextTask + 1 }) (hbegan : w.Began main)
include htask hmain hw hbegan

/-- A task goes on from where its counterpart comes to its end. -/
theorem goesOn (h : l.Completes t' w' o v') (rest : Outcome → Task Outcome) : ∃ moved v,
    Before l.evaluator.evalWork main ⟨[(main, t.bind rest)], [], false, w⟩ ⟨[(main, rest o)], [], moved, v⟩ ∧
    v.Twin ρ v' := by
  obtain ⟨moved, hbefore⟩ := h.before
  have hstart : Moment.Twin ρ main rest ⟨[(main, t.bind rest)], [], false, w⟩
      ⟨[(w'.nextTask, t')], [], false, { w' with nextTask := w'.nextTask + 1 }⟩ :=
    ⟨.cons ⟨hmain.symm, t, owed, by rw [if_pos rfl], htask⟩ .nil, .nil, rfl, hw, hbegan⟩
  rw [← hmain] at hbefore hstart
  obtain ⟨⟨due, had, moved', v⟩, hn, htwin⟩ := hstart.before hbefore
  obtain ⟨hdue, hhad, hmoved, hworld, -⟩ := htwin
  cases hdue with
  | @cons x _ _ _ hx hdue =>
    cases hdue
    cases hhad
    obtain ⟨who, x⟩ := x
    obtain ⟨hwho, task, owed', htask', hend⟩ := hx
    obtain rfl : main = who := ρ.task_injective hwho
    obtain rfl : x = task.bind (if main = main then rest else .ret) := htask'
    rw [if_pos rfl] at hn
    cases hend with
    | ret ho =>
      subst ho
      exact ⟨moved', v, hn, hworld⟩

/-- What a task comes to, its counterpart comes to. -/
theorem of_before (h : Before l.evaluator.evalWork main ⟨[(main, t)], [], false, w⟩ ⟨[(main, .ret o)], [], moved, v⟩)
    (hspawned : v.spawned = []) (hended : ∀ e ∈ v.ended, e.1 ≠ main) : ∃ v', l.Completes t' w' o v' ∧ v.Twin ρ v' := by
  have hstart : Moment.Twin ρ main .ret ⟨[(main, t)], [], false, w⟩
      ⟨[(w'.nextTask, t')], [], false, { w' with nextTask := w'.nextTask + 1 }⟩ :=
    ⟨.cons ⟨hmain.symm, t, owed, by rw [if_pos rfl, Task.bind_ret], htask⟩ .nil, .nil, rfl, hw, hbegan⟩
  obtain ⟨⟨due, had, moved', v'⟩, hn, htwin⟩ := hstart.before_counterpart h
  obtain ⟨hdue, hhad, hmoved, hworld, -⟩ := htwin
  cases hdue with
  | @cons _ x _ _ hx hdue =>
    cases hdue
    cases hhad
    obtain ⟨who, x⟩ := x
    obtain ⟨hwho, task, owed', htask', hend⟩ := hx
    obtain rfl : who = ρ.task main := hwho
    rw [ite_self, Task.bind_ret] at htask'
    subst htask'
    cases hend with
    | ret ho =>
      subst ho
      rw [hmain] at hn
      refine ⟨v', ⟨⟨moved', hn⟩, ?_, fun e he heq => ?_⟩, hworld⟩
      · have hnone := hworld.spawned
        rwa [hspawned, List.map_nil] at hnone
      · rw [hworld.ended] at he
        obtain ⟨ended, hmem, rfl⟩ := List.mem_map.1 he
        exact hended ended hmem (ρ.task_injective (heq.trans hmain.symm))

end

end Limits.Completes

end DualShell
