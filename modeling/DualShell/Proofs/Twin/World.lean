import Mathlib.Data.Option.Basic
import DualShell.Proofs.Machine.Frames
import DualShell.Proofs.Stream.Bare
import DualShell.Proofs.Twin.Lawful

/-!
# Machines under other numbers

Two machines are twins (`World.Twin`) if they hold the same under different numbers: the same variables, files and
modules, kernels that differ at most in the names that they know, channels that are the same but for who is parked, and
collectors of which one may hold more from before. Twins answer a request and its twin alike, and stay twins
(`World.Twin.perform`).
-/

namespace DualShell

/-! ## Tables -/

/-- Two tables with the same things in them under other numbers, and so will be what is added. -/
structure Tables {α : Type} (num : Nat → Nat) (Like : Nat → α → α → Prop) (xs xs' : Array α) : Prop where
  entries : ∀ i, Option.Rel (Like i) xs[i]? xs'[num i]?
  next : ∀ i, num (xs.size + i) = xs'.size + i

namespace Tables

variable {α : Type} {num : Nat → Nat} {Like : Nat → α → α → Prop} {xs xs' : Array α}

/-- A table is its own twin. -/
theorem refl (hlike : ∀ i x, Like i x x) : Tables id Like xs xs := by
  refine ⟨fun i => ?_, fun _ => rfl⟩
  show Option.Rel (Like i) xs[i]? xs[i]?
  cases xs[i]? with
  | none => exact .none
  | some x => exact .some (hlike i x)

/-- Something is changed where the number is. -/
theorem modify (h : Tables num Like xs xs') (hnum : Function.Injective num) (i : Nat) {f f' : α → α}
    (hf : ∀ x x', Like i x x' → Like i (f x) (f' x')) : Tables num Like (xs.modify i f) (xs'.modify (num i) f') := by
  refine ⟨fun j => ?_, fun j => ?_⟩
  · rw [Array.getElem?_modify, Array.getElem?_modify]
    have hj := h.entries j
    by_cases hij : i = j
    · subst hij
      rw [if_pos rfl, if_pos rfl]
      cases hx : xs[i]? <;> cases hx' : xs'[num i]? <;> rw [hx, hx'] at hj <;> cases hj
      · exact .none
      · exact .some (hf _ _ ‹_›)
    · rw [if_neg hij, if_neg fun heq => hij (hnum heq)]
      exact hj
  · rw [Array.size_modify, Array.size_modify]
    exact h.next j

/-- To set an entry is to change it to what is set. -/
theorem setIfInBounds_eq_modify (xs : Array α) (i : Nat) (x : α) : xs.setIfInBounds i x = xs.modify i fun _ => x := by
  refine Array.ext_getElem? fun j => ?_
  rw [Array.getElem?_setIfInBounds, Array.getElem?_modify]
  by_cases hij : i = j
  · subst hij
    by_cases hi : i < xs.size <;> simp [hi]
  · rw [if_neg hij, if_neg hij]

/-- An entry is set in both tables. -/
theorem set (h : Tables num Like xs xs') (hnum : Function.Injective num) (i : Nat) {x x' : α} (hx : Like i x x') :
    Tables num Like (xs.setIfInBounds i x) (xs'.setIfInBounds (num i) x') := by
  rw [setIfInBounds_eq_modify, setIfInBounds_eq_modify]
  exact h.modify hnum i fun _ _ _ => hx

/-- To set an entry to what it is changes nothing. -/
theorem setIfInBounds_self {i : Nat} {x : α} (h : xs[i]? = some x) : xs.setIfInBounds i x = xs := by
  refine Array.ext_getElem? fun j => ?_
  rw [setIfInBounds_eq_modify, Array.getElem?_modify]
  split
  · rename_i hij
    rw [← hij, h]
    rfl
  · rfl

/-- A table stays a twin if something is added to both. -/
theorem push (h : Tables num Like xs xs') (hnum : Function.Injective num) {x x' : α} (hx : Like xs.size x x') :
    Tables num Like (xs.push x) (xs'.push x') := by
  have hsize : num xs.size = xs'.size := h.next 0
  refine ⟨fun j => ?_, fun j => ?_⟩
  · rw [Array.getElem?_push, Array.getElem?_push]
    by_cases hj : j = xs.size
    · subst hj
      rw [if_pos rfl, if_pos hsize]
      exact .some hx
    · rw [if_neg hj, if_neg fun heq => hj (hnum (heq.trans hsize.symm))]
      exact h.entries j
  · rw [Array.size_push, Array.size_push, Nat.add_assoc, Nat.add_assoc]
    exact h.next (1 + j)

end Tables

/-! ## Twins -/

/-- The kernel without the names that programs may refer to. -/
def Kernel.unnamed (k : Kernel) : Kernel := { k with names := [] }

variable (ρ : Renaming)

/-- A channel and its counterpart; one that is no pipe is empty for good. -/
structure Channel.Twin (i : ChannelId) (c c' : Channel) : Prop where
  like : c.Like c'
  idle : ¬ρ.pipe i → c.Like idle

/-- A collector and its counterpart, which lacks what was held before. -/
def Collector.Twin (i : CollectorId) (x x' : Collector) : Prop :=
  x = ⟨x'.bytes ++ (ρ.before i).bytes, x'.values ++ (ρ.before i).values⟩

/-- Two machines that hold the same under different numbers. -/
structure World.Twin (w w' : World) : Prop where
  store : w'.store = w.store
  fresh : w'.fresh = w.fresh
  handles : w'.handles = w.handles
  files : w'.files = w.files
  source : w'.source = w.source
  modules : w'.modules = w.modules
  kernel? : ∀ k, (w'.kernel? k).map Kernel.unnamed = (w.kernel? k).map Kernel.unnamed
  channels : Tables ρ.channel (Channel.Twin ρ) w.channels w'.channels
  pipes : ∀ i, w.channels.size ≤ i → ρ.pipe i
  collectors : Tables ρ.collector (Collector.Twin ρ) w.collectors w'.collectors
  own : ∀ i, w.collectors.size ≤ i → ρ.Own i
  nextTask : ∀ i, ρ.task (w.nextTask + i) = w'.nextTask + i
  spawned : w'.spawned = w.spawned.map fun s => (ρ.task s.1, s.2.rename ρ)
  usable : ∀ s ∈ w.spawned, s.2.Usable ρ
  ended : w'.ended = w.ended.map fun e => (ρ.task e.1, e.2)

variable {ρ}

/-- Requests about tasks, and about jobs, which tasks run. -/
def Request.ConcernsTasks : Request → Prop
  | .spawn _ | .join _ | .startJob .. | .finishJob .. | .listJobs _ | .cleanupJobs _ | .findJob .. | .waitJob ..
      | .forgetJob .. => True
  | _ => False

/-- Requests about what is set for a kernel: its environment, and where programs and modules are looked for. -/
def Request.ConcernsKernel : Request → Prop
  | .getEnv .. | .setEnv .. | .environment _ | .program .. | .resolveModule .. => True
  | _ => False

/-- Twin answers, from machines that are twins. -/
def Request.TwinAnswers (ρ : Renaming) (r : Request) (a : Answer r) (a' : Answer (r.rename ρ)) : Prop :=
  Option.Rel (r.Meets ρ.scheme) a.1 a'.1 ∧ a.2.Twin ρ a'.2

namespace World.Twin

variable {w w' : World} (h : w.Twin ρ w')
include h

/-- What twins share is changed in both. -/
theorem share (store : Store) (fresh : Nat) (handles : Array OpenFile) (files : FileTree) (modules : ModuleCache) :
    Twin ρ { w with store, fresh, handles, files, modules } { w' with store, fresh, handles, files, modules } :=
  ⟨rfl, rfl, rfl, rfl, h.source, rfl, h.kernel?, h.channels, h.pipes, h.collectors, h.own, h.nextTask, h.spawned,
    h.usable, h.ended⟩

/-- What twins do not share. -/
theorem exists_eq : ∃ channels collectors kernels nextTask spawned ended,
    w' = { w with channels, collectors, kernels, nextTask, spawned, ended } := by
  obtain ⟨store, fresh, channels, handles, collectors, files, source, modules, kernels, nextTask, spawned, ended⟩ := w
  obtain ⟨store', fresh', channels', handles', collectors', files', source', modules', kernels', nextTask', spawned',
    ended'⟩ := w'
  obtain rfl : store' = store := h.store
  obtain rfl : fresh' = fresh := h.fresh
  obtain rfl : handles' = handles := h.handles
  obtain rfl : files' = files := h.files
  obtain rfl : source' = source := h.source
  obtain rfl : modules' = modules := h.modules
  exact ⟨_, _, _, _, _, _, rfl⟩

/-! ### Kernels -/

/-- A kernel is the same but for the names it knows. -/
theorem exists_kernel {k : KernelId} {kernel : Kernel} (hk : w.kernel? k = some kernel) :
    ∃ names, w'.kernel? k = some { kernel with names } := by
  have hsame := h.kernel? k
  rw [hk] at hsame
  obtain ⟨kernel', hk', hunnamed⟩ := Option.map_eq_some_iff.1 hsame
  refine ⟨kernel'.names, ?_⟩
  rw [hk']
  obtain ⟨config, env, jobs, globals, names⟩ := kernel
  obtain ⟨config', env', jobs', globals', names'⟩ := kernel'
  cases hunnamed
  rfl

/-- The same kernels are there. -/
theorem kernel?_eq_none {k : KernelId} (hk : w.kernel? k = none) : w'.kernel? k = none := by
  have hsame := h.kernel? k
  rw [hk] at hsame
  exact Option.map_eq_none_iff.1 hsame

/-- The environment is the same. -/
theorem environment (k : KernelId) : w'.environment k = w.environment k := by
  unfold World.environment
  cases hk : w.kernel? k with
  | none => rw [h.kernel?_eq_none hk]
  | some kernel =>
    obtain ⟨names, hk'⟩ := h.exists_kernel hk
    rw [hk']

/-- The jobs are the same. -/
theorem jobs (k : KernelId) : w'.jobs k = w.jobs k := by
  unfold World.jobs
  cases hk : w.kernel? k with
  | none => rw [h.kernel?_eq_none hk]
  | some kernel =>
    obtain ⟨names, hk'⟩ := h.exists_kernel hk
    rw [hk']

/-- A kernel is changed alike, if the change does not look at its names. -/
theorem modifyKernel (k : KernelId) {change : Kernel → Kernel}
    (hc : ∀ kernel names, change { kernel with names } = { change kernel with names }) :
    (w.modifyKernel k change).Twin ρ (w'.modifyKernel k change) := by
  refine ⟨h.store, h.fresh, h.handles, h.files, h.source, h.modules, fun i => ?_, h.channels, h.pipes, h.collectors,
    h.own, h.nextTask, h.spawned, h.usable, h.ended⟩
  have hkernel : ∀ v : World, (v.modifyKernel k change).kernel? i = if k = i then
    (v.kernel? i).map change else v.kernel? i :=
    fun v => Array.getElem?_modify
  rw [hkernel, hkernel]
  split
  · cases hk : w.kernel? i with
    | none => rw [h.kernel?_eq_none hk]
    | some kernel =>
      obtain ⟨names, hk'⟩ := h.exists_kernel hk
      rw [hk', Option.map_some, Option.map_some, Option.map_some, Option.map_some, hc]
      rfl
  · exact h.kernel? i

theorem setJobs (k : KernelId) (jobs : JobTable) : (w.setJobs k jobs).Twin ρ (w'.setJobs k jobs) :=
  h.modifyKernel k fun _ _ => rfl

/-! ### Channels -/

theorem withChannels {channels channels' : Array Channel} (hc : Tables ρ.channel (Channel.Twin ρ) channels channels')
    (hp : ∀ i, channels.size ≤ i → ρ.pipe i) : Twin ρ { w with channels } { w' with channels := channels' } :=
  ⟨h.store, h.fresh, h.handles, h.files, h.source, h.modules, h.kernel?, hc, hp, h.collectors, h.own, h.nextTask,
    h.spawned, h.usable, h.ended⟩

/-- A channel has a counterpart, or is on neither machine. -/
theorem channel_cases (i : ChannelId) : (w.channels[i]? = none ∧ w'.channels[ρ.channel i]? = none) ∨
    ∃ c c', w.channels[i]? = some c ∧ w'.channels[ρ.channel i]? = some c' ∧ Channel.Twin ρ i c c' := by
  have hrel := h.channels.entries i
  rcases hc : w.channels[i]? with _ | c <;> rcases hc' : w'.channels[ρ.channel i]? with _ | c' <;> rw [hc, hc']
    at hrel <;> cases hrel
  · exact .inl ⟨rfl, rfl⟩
  · exact .inr ⟨c, c', rfl, rfl, ‹_›⟩

/-- A channel and its counterpart are changed. -/
theorem setChannel (i : ChannelId) {c c' : Channel} (hc : Channel.Twin ρ i c c') :
    Twin ρ { w with channels := w.channels.setIfInBounds i c }
      { w' with channels := w'.channels.setIfInBounds (ρ.channel i) c' } :=
  h.withChannels (h.channels.set ρ.channel_injective i hc) fun j hj => h.pipes j (by rwa [Array.size_setIfInBounds] at hj)

/-- A pipe is made. -/
theorem addChannel {c c' : Channel} (hc : c.Like c') : (w.addChannel c).2.Twin ρ (w'.addChannel c').2 := by
  have hpipe : ρ.pipe w.channels.size := h.pipes _ (Nat.le_refl _)
  refine h.withChannels (h.channels.push ρ.channel_injective ⟨hc, fun hnot => absurd hpipe hnot⟩) fun j hj => h.pipes j ?_
  rw [Array.size_push] at hj
  exact Nat.le_of_succ_le hj

/-- A pipe changes. -/
theorem modifyChannel {i : ChannelId} (hi : ρ.pipe i) {f : Channel → Channel} (hf : ∀ c c', c.Like c' → (f c).Like (f c')) :
    Twin ρ { w with channels := w.channels.modify i f } { w' with channels := w'.channels.modify (ρ.channel i) f } := by
  refine h.withChannels (h.channels.modify ρ.channel_injective i fun c c' hc => ?_) fun j hj => h.pipes j ?_
  · exact ⟨hf c c' hc.like, fun hnot => absurd hi hnot⟩
  · rwa [Array.size_modify] at hj

/-! ### Reading -/

/-- A step of a read. -/
theorem reading {α : Type} (inlet : Inlet) {f f' : Channel → Step α × Channel} (g : OpenFile → Step α × OpenFile)
    (hf : ∀ {c c'}, c.Like c' → Channel.Agree (f c) (f' c')) (hidle : ∀ {c}, c.Like .idle → (f c).2.Like .idle) :
    (w'.reading (inlet.rename ρ) f' g).1 = (w.reading inlet f g).1 ∧
      (w.reading inlet f g).2.Twin ρ (w'.reading (inlet.rename ρ) f' g).2 := by
  cases inlet with
  | channel i =>
    unfold World.reading Inlet.rename
    dsimp only
    obtain ⟨hnone, hnone'⟩ | ⟨c, c', hc, hc', htwin⟩ := h.channel_cases i
    · rw [hnone, hnone']
      exact ⟨rfl, h⟩
    · rw [hc, hc']
      obtain ⟨hresult, hlike⟩ := hf htwin.like
      exact ⟨hresult.symm, h.setChannel i ⟨hlike, fun hnot => hidle (htwin.idle hnot)⟩⟩
  | file i =>
    obtain ⟨channels, collectors, kernels, nextTask, spawned, ended, rfl⟩ := h.exists_eq
    unfold World.reading Inlet.rename
    dsimp only
    split
    · exact ⟨rfl, h⟩
    · exact ⟨rfl, h.share w.store w.fresh _ w.files w.modules⟩

omit h in
theorem rel_same {α : Type} {a a' : Option α} (ha : a' = a) : Option.Rel (fun x x' => x' ≍ x) a a' := by
  subst ha
  cases a' with
  | none => exact .none
  | some x => exact .some HEq.rfl

omit h in
/-- Steps that come to the same are answered alike. -/
theorem answerStep {α : Type} {x x' : Step α × World} (hx : x'.1 = x.1 ∧ x.2.Twin ρ x'.2) :
    Option.Rel (fun a a' => a' ≍ a) (World.answerStep x).1 (World.answerStep x').1 ∧
      (World.answerStep x).2.Twin ρ (World.answerStep x').2 := by
  obtain ⟨result, w⟩ := x
  obtain ⟨result', w'⟩ := x'
  obtain ⟨hresult, htwin⟩ := hx
  cases hresult
  cases result with
  | blocked => exact ⟨.none, htwin⟩
  | more | done | failed => exact ⟨.some HEq.rfl, htwin⟩

variable (who who' : TaskId)

/-- A line of the input is the same, and both machines go on as twins. -/
theorem line (inlet : Inlet) : (w'.line who' (inlet.rename ρ)).1 = (w.line who inlet).1 ∧
    (w.line who inlet).2.Twin ρ (w'.line who' (inlet.rename ρ)).2 := by
  unfold World.line
  rw [h.files]
  exact h.reading inlet _ (fun hc => hc.line who who') Channel.idle_line

theorem toEnd (inlet : Inlet) : (w'.toEnd who' (inlet.rename ρ)).1 = (w.toEnd who inlet).1 ∧
    (w.toEnd who inlet).2.Twin ρ (w'.toEnd who' (inlet.rename ρ)).2 := by
  unfold World.toEnd
  rw [h.files]
  exact h.reading inlet _ (fun hc => hc.toEnd who who') Channel.idle_toEnd

theorem upTo (inlet : Inlet) (count : Nat) : (w'.upTo who' (inlet.rename ρ) count).1 = (w.upTo who inlet count).1 ∧
    (w.upTo who inlet count).2.Twin ρ (w'.upTo who' (inlet.rename ρ) count).2 := by
  unfold World.upTo
  rw [h.files]
  exact h.reading inlet _ (fun hc => hc.upTo who who' count) fun hc => Channel.idle_upTo hc count

theorem item (inlet : Inlet) (m : Merging) : (w'.item who' (inlet.rename ρ) m).1 = (w.item who inlet m).1 ∧
    (w'.item who' (inlet.rename ρ) m).2.1 = (w.item who inlet m).2.1 ∧
    (w.item who inlet m).2.2.Twin ρ (w'.item who' (inlet.rename ρ) m).2.2 := by
  cases inlet with
  | channel i =>
    unfold World.item Inlet.rename
    dsimp only
    obtain ⟨hnone, hnone'⟩ | ⟨c, c', hc, hc', htwin⟩ := h.channel_cases i
    · rw [hnone, hnone']
      exact ⟨rfl, rfl, h⟩
    · rw [hc, hc']
      obtain ⟨hresult, hmerging, hlike⟩ := htwin.like.item who who' m
      exact ⟨hresult.symm, hmerging.symm, h.setChannel i ⟨hlike, fun hnot => Channel.idle_item (htwin.idle hnot) m⟩⟩
  | file i =>
    obtain ⟨hresult, htwin⟩ := h.line who who' (.file i)
    exact ⟨congrArg (Step.map (Option.map Value.string)) hresult, rfl, htwin⟩

/-! ### Writing -/

/-- The collectors may be changed if they stay counterparts. -/
theorem withCollectors {collectors collectors' : Array Collector}
    (hc : Tables ρ.collector (Collector.Twin ρ) collectors collectors') (ho : ∀ i, collectors.size ≤ i → ρ.Own i) :
    Twin ρ { w with collectors } { w' with collectors := collectors' } :=
  ⟨h.store, h.fresh, h.handles, h.files, h.source, h.modules, h.kernel?, h.channels, h.pipes, hc, ho, h.nextTask,
    h.spawned, h.usable, h.ended⟩

theorem modifyCollector (i : CollectorId) {f : Collector → Collector}
    (hf : ∀ x x', Collector.Twin ρ i x x' → Collector.Twin ρ i (f x) (f x')) :
    Twin ρ { w with collectors := w.collectors.modify i f }
      { w' with collectors := w'.collectors.modify (ρ.collector i) f } :=
  h.withCollectors (h.collectors.modify ρ.collector_injective i hf) fun j hj => h.own j (by rwa [Array.size_modify] at hj)

theorem addCollector : w.addCollector.2.Twin ρ w'.addCollector.2 := by
  have hown : ρ.Own w.collectors.size := h.own _ (Nat.le_refl _)
  refine h.withCollectors (h.collectors.push ρ.collector_injective ?_) fun j hj => h.own j ?_
  · unfold Collector.Twin
    rw [show ρ.before w.collectors.size = ⟨[], []⟩ from hown]
    rfl
  · rw [Array.size_push] at hj
    exact Nat.le_of_succ_le hj

/-- What was collected is taken on both machines. -/
theorem takeCollected {i : CollectorId} (hi : ρ.Own i) : (w'.takeCollected (ρ.collector i)).1 = (w.takeCollected i).1 ∧
    (w.takeCollected i).2.Twin ρ (w'.takeCollected (ρ.collector i)).2 := by
  have hbefore : ρ.before i = ⟨[], []⟩ := hi
  have hrel := h.collectors.entries i
  unfold World.takeCollected
  rcases hx : w.collectors[i]? with _ | x <;> rcases hx' : w'.collectors[ρ.collector i]? with _ | x' <;> rw [hx,
    hx'] at hrel <;>
    cases hrel
  · exact ⟨rfl, h⟩
  · rename_i heq
    have hsame : x = x' := by
      unfold Collector.Twin at heq
      rw [hbefore, List.append_nil, List.append_nil] at heq
      exact heq
    subst hsame
    refine ⟨rfl, h.withCollectors (h.collectors.set ρ.collector_injective i ?_) fun j hj => h.own j ?_⟩
    · unfold Collector.Twin
      rw [hbefore]
      rfl
    · rwa [Array.size_setIfInBounds] at hj

/-- Bytes are written to counterparts, to the same effect. -/
theorem write {o : Outlet} (ho : o.Writable ρ) (data : Bytes) :
    (w'.write who' (o.rename ρ) data).1 = (w.write who o data).1 ∧
    (w.write who o data).2.Twin ρ (w'.write who' (o.rename ρ) data).2 := by
  cases o with
  | channel i =>
    unfold World.write Outlet.rename
    dsimp only
    obtain ⟨hnone, hnone'⟩ | ⟨c, c', hc, hc', htwin⟩ := h.channel_cases i
    · rw [hnone, hnone']
      exact ⟨rfl, h⟩
    · rw [hc, hc']
      dsimp only
      obtain ⟨hresult, hlike⟩ := htwin.like.write who who' data
      rcases hx : c.write who data with ⟨result, d⟩
      rcases hx' : c'.write who' data with ⟨result', d'⟩
      rw [hx, hx'] at hresult hlike
      cases hresult
      have hset := h.setChannel i ⟨hlike, fun hnot => absurd ho hnot⟩
      cases result <;> exact ⟨rfl, hset⟩
  | file i =>
    obtain ⟨channels, collectors, kernels, nextTask, spawned, ended, rfl⟩ := h.exists_eq
    unfold World.write Outlet.rename
    dsimp only
    split
    · exact ⟨rfl, h⟩
    · exact ⟨rfl, h.share w.store w.fresh _ _ w.modules⟩
  | collector i =>
    refine ⟨rfl, h.modifyCollector i fun x x' hx => ?_⟩
    unfold Collector.Twin at hx ⊢
    rw [hx, List.append_assoc]

/-- A value is put to counterparts, to the same effect. -/
theorem put {o : Outlet} (ho : o.Writable ρ) (v : Value) : (w'.put (o.rename ρ) v).1 = (w.put o v).1 ∧
    (w.put o v).2.Twin ρ (w'.put (o.rename ρ) v).2 := by
  cases o with
  | channel i =>
    unfold World.put Outlet.rename
    dsimp only
    obtain ⟨hnone, hnone'⟩ | ⟨c, c', hc, hc', htwin⟩ := h.channel_cases i
    · rw [hnone, hnone']
      exact ⟨rfl, h⟩
    · rw [hc, hc']
      dsimp only
      obtain ⟨hresult, hlike⟩ := htwin.like.put v
      rcases hx : c.put v with ⟨result, d⟩
      rcases hx' : c'.put v with ⟨result', d'⟩
      rw [hx, hx'] at hresult hlike
      cases hresult
      have hset := h.setChannel i ⟨hlike, fun hnot => absurd ho hnot⟩
      cases result <;> exact ⟨rfl, hset⟩
  | file i => exact ⟨rfl, h⟩
  | collector i =>
    refine ⟨rfl, h.modifyCollector i fun x x' hx => ?_⟩
    unfold Collector.Twin at hx ⊢
    rw [hx]
    rfl

/-- An end that may be written to is closed on both machines. -/
theorem closeOutlet {o : Outlet} (ho : o.Writable ρ) : (w.closeOutlet o).Twin ρ (w'.closeOutlet (o.rename ρ)) := by
  cases o with
  | channel i => exact h.modifyChannel ho fun _ _ hc => hc.dropOutlet
  | file | collector => exact h

/-- An input is closed on both machines. -/
theorem closeInlet {i : Inlet} (hi : i.Closable ρ) : (w.closeInlet i).Twin ρ (w'.closeInlet (i.rename ρ)) := by
  cases i with
  | channel i => exact h.modifyChannel hi fun _ _ hc => hc.dropInlet
  | file => exact h

/-! ### Tasks -/

/-- Work is begun under the next number. -/
theorem spawn {work : Work} (hwork : work.Usable ρ) : (w.spawn work).2.Twin ρ (w'.spawn (work.rename ρ)).2 := by
  have hnext : ρ.task w.nextTask = w'.nextTask := h.nextTask 0
  refine ⟨h.store, h.fresh, h.handles, h.files, h.source, h.modules, h.kernel?, h.channels, h.pipes, h.collectors,
    h.own, fun i => ?_, ?_, List.forall_mem_append.2 ⟨h.usable, List.forall_mem_singleton.2 hwork⟩, h.ended⟩
  · show ρ.task (w.nextTask + 1 + i) = w'.nextTask + 1 + i
    rw [Nat.add_assoc, Nat.add_assoc]
    exact h.nextTask (1 + i)
  · show w'.spawned ++ [(w'.nextTask, work.rename ρ)] = (w.spawned ++ [(w.nextTask, work)]).map _
    rw [h.spawned, List.map_append, List.map_singleton, hnext]

/-- A job is started on both machines, under the same number. -/
theorem startJob (p : Code.Pipeline) {ctx : Context} (hctx : ctx.Usable ρ) :
    (w'.startJob p (ctx.rename ρ)).1 = (w.startJob p ctx).1 ∧
    (w.startJob p ctx).2.Twin ρ (w'.startJob p (ctx.rename ρ)).2 := by
  unfold World.startJob
  rw [Context.rename_kernel, h.jobs]
  have hwork : Work.Usable ρ (.job p ctx ((w.jobs ctx.kernel).spawn p.text).1) := hctx
  exact ⟨rfl, (h.setJobs ctx.kernel _).spawn hwork⟩

/-- An outcome is handed out. -/
theorem takeEnded (id : TaskId) :
    Option.Rel (fun x x' => x'.1 = x.1 ∧ x.2.Twin ρ x'.2) (w.takeEnded id) (w'.takeEnded (ρ.task id)) := by
  have hfind : w'.ended.find? (·.1 == ρ.task id) = (w.ended.find? (·.1 == id)).map fun e => (ρ.task e.1, e.2) := by
    rw [h.ended, List.find?_map]
    congr 2
    funext e
    exact Bool.eq_iff_iff.2 (by simp [ρ.task_injective.eq_iff])
  have hfilter : w'.ended.filter (·.1 != ρ.task id) = (w.ended.filter (·.1 != id)).map fun e => (ρ.task e.1, e.2) := by
    rw [h.ended, List.filter_map]
    congr 2
    funext e
    exact Bool.eq_iff_iff.2 (by simp [ρ.task_injective.eq_iff])
  rcases hx : w.ended.find? (·.1 == id) with _ | ⟨id', o⟩ <;> rw [hx] at hfind <;> unfold World.takeEnded <;> rw [hx, hfind]
  · exact .none
  · refine .some ⟨rfl, ?_⟩
    exact ⟨h.store, h.fresh, h.handles, h.files, h.source, h.modules, h.kernel?, h.channels, h.pipes, h.collectors,
      h.own, h.nextTask, h.spawned, h.usable, hfilter⟩

/-- A task ends on both machines. -/
theorem endTask (id : TaskId) (o : Outcome) : (w.endTask id o).Twin ρ (w'.endTask (ρ.task id) o) := by
  refine ⟨h.store, h.fresh, h.handles, h.files, h.source, h.modules, h.kernel?, h.channels, h.pipes, h.collectors,
    h.own, h.nextTask, h.spawned, h.usable, ?_⟩
  show w'.ended ++ [(ρ.task id, o)] = (w.ended ++ [(id, o)]).map _
  rw [h.ended, List.map_append, List.map_singleton]

/-! ### Files -/

/-- A file is opened under the same number. -/
theorem openFile (path : String) (mode : RedirMode) : (w'.openFile path mode).1 = (w.openFile path mode).1 ∧
    (w.openFile path mode).2.Twin ρ (w'.openFile path mode).2 ∧
    ∀ p, (w.openFile path mode).1 = .ok p → p.rename ρ = p ∧ p.Usable ρ := by
  obtain ⟨channels, collectors, kernels, nextTask, spawned, ended, rfl⟩ := h.exists_eq
  unfold World.openFile
  cases mode with
  | read | write | append | readWrite =>
    dsimp only
    split
    · exact ⟨rfl, h, fun _ hp => by cases hp⟩
    · refine ⟨rfl, h.share w.store w.fresh _ _ w.modules, fun p hp => ?_⟩
      cases hp
      exact ⟨rfl, fun o ho => by cases ho <;> trivial⟩

/-! ### Requests -/

/-- Requests about streams and files that are open. -/
theorem perform_stream {r : Request} (hstream : r.IsStream) (hr : r.Allowed ρ.scheme) :
    r.TwinAnswers ρ (w.perform who r) (w'.perform who' (r.rename ρ)) := by
  cases r with
  | openChannel k =>
    refine ⟨.some ⟨(h.channels.next 0).symm, h.pipes _ (Nat.le_refl _)⟩, ?_⟩
    cases hk : w.kernel? k with
    | none =>
      simp only [World.perform, Request.rename, hk, h.kernel?_eq_none hk]
      exact h.addChannel (.refl _)
    | some kernel =>
      obtain ⟨names, hk'⟩ := h.exists_kernel hk
      simp only [World.perform, Request.rename, hk, hk']
      exact h.addChannel (.refl _)
  | openInput data values => exact ⟨.some (h.channels.next 0).symm, h.addChannel (.refl _)⟩
  | openCollector => exact ⟨.some ⟨(h.collectors.next 0).symm, h.own _ (Nat.le_refl _)⟩, h.addCollector⟩
  | takeCollected k =>
    obtain ⟨hresult, htwin⟩ := h.takeCollected hr
    exact ⟨.some ⟨hresult, fun _ _ => trivial⟩, htwin⟩
  | closeOutlet o => exact ⟨.some HEq.rfl, h.closeOutlet hr⟩
  | closeInlet i => exact ⟨.some HEq.rfl, h.closeInlet hr⟩
  | write o data =>
    obtain ⟨hresult, htwin⟩ := h.write who who' hr data
    exact ⟨rel_same hresult, htwin⟩
  | put o v =>
    obtain ⟨hresult, htwin⟩ := h.put hr.1 v
    exact ⟨rel_same hresult, htwin⟩
  | line i => exact answerStep (h.line who who' i)
  | toEnd i => exact answerStep (h.toEnd who who' i)
  | upTo i count => exact answerStep (h.upTo who who' i count)
  | item i m =>
    obtain ⟨hresult, hmerging, htwin⟩ := h.item who who' i m
    simp only [World.perform, Request.rename]
    rcases hx : w.item who i m with ⟨result, m₁, v⟩
    rcases hx' : w'.item who' (i.rename ρ) m with ⟨result', m₁', v'⟩
    rw [hx, hx'] at hresult hmerging htwin
    cases hresult
    cases hmerging
    cases result with
    | blocked => exact ⟨.none, htwin⟩
    | more | done | failed => exact ⟨.some ⟨rfl, fun _ _ => trivial⟩, htwin⟩
  | openFile path mode =>
    obtain ⟨hresult, htwin, hfile⟩ := h.openFile path mode
    exact ⟨.some ⟨hresult, hfile⟩, htwin⟩
  | _ => exact hstream.elim

/-- Requests about tasks and jobs. -/
theorem perform_task {r : Request} (htask : r.ConcernsTasks) (hr : r.Allowed ρ.scheme) :
    r.TwinAnswers ρ (w.perform who r) (w'.perform who' (r.rename ρ)) := by
  cases r with
  | spawn work => exact ⟨.some ⟨(h.nextTask 0).symm, trivial⟩, h.spawn hr⟩
  | join id =>
    have hrel := h.takeEnded id
    simp only [World.perform, Request.rename]
    rcases hx : w.takeEnded id with _ | ⟨o, v⟩ <;> rcases hx' : w'.takeEnded (ρ.task id) with _ | ⟨o', v'⟩ <;> rw [hx,
      hx'] at hrel <;>
      cases hrel
    · exact ⟨.none, h⟩
    · rename_i hsame
      exact ⟨.some ⟨hsame.1, fun _ _ => trivial, trivial⟩, hsame.2⟩
  | startJob p ctx =>
    obtain ⟨hresult, htwin⟩ := h.startJob p hr
    exact ⟨.some (heq_of_eq hresult), htwin⟩
  | finishJob k id result =>
    simp only [World.perform, Request.rename, h.jobs]
    exact ⟨.some HEq.rfl, h.setJobs k _⟩
  | listJobs k => exact ⟨.some (heq_of_eq (congrArg JobTable.list (h.jobs k))), h⟩
  | cleanupJobs k =>
    simp only [World.perform, Request.rename, h.jobs]
    exact ⟨.some HEq.rfl, h.setJobs k _⟩
  | findJob k id => exact ⟨.some (heq_of_eq (congrArg (fun t : JobTable => (t.find? id).isSome) (h.jobs k))), h⟩
  | waitJob k id =>
    simp only [World.perform, Request.rename, h.jobs]
    cases (w.jobs k).result? id with
    | none => exact ⟨.none, h⟩
    | some r => exact ⟨.some ⟨rfl, ⟨fun _ _ => trivial, fun _ _ => trivial⟩, trivial⟩, h⟩
  | forgetJob k id =>
    simp only [World.perform, Request.rename, h.jobs]
    exact ⟨.some HEq.rfl, h.setJobs k _⟩
  | _ => exact htask.elim

/-- Requests about what is set for a kernel. -/
theorem perform_kernel {r : Request} (hkernel : r.ConcernsKernel) :
    r.TwinAnswers ρ (w.perform who r) (w'.perform who' (r.rename ρ)) := by
  cases r with
  | getEnv k name => exact ⟨.some (heq_of_eq (congrArg (Named.get? · name) (h.environment k))), h⟩
  | environment k => exact ⟨.some (heq_of_eq (h.environment k)), h⟩
  | setEnv k name text => exact ⟨.some HEq.rfl, h.modifyKernel k fun _ _ => rfl⟩
  | program k command =>
    refine ⟨.some (heq_of_eq ?_), h⟩
    rw [h.environment, h.files]
  | resolveModule k spec =>
    refine ⟨.some (heq_of_eq ?_), h⟩
    unfold World.resolveModule
    rw [h.source, h.files]
    cases hk : w.kernel? k with
    | none => rw [h.kernel?_eq_none hk]
    | some kernel =>
      obtain ⟨names, hk'⟩ := h.exists_kernel hk
      rw [hk']
  | _ => exact hkernel.elim

/-- All other requests concern what twins have in common: variables, identities, modules and files. -/
theorem perform_common {r : Request} (hstream : ¬r.IsStream) (htask : ¬r.ConcernsTasks) (hkernel : ¬r.ConcernsKernel) :
    r.TwinAnswers ρ (w.perform who r) (w'.perform who' (r.rename ρ)) := by
  obtain ⟨channels, collectors, kernels, nextTask, spawned, ended, rfl⟩ := h.exists_eq
  cases r with
  | peek | fixed => exact ⟨.some ⟨rfl, fun _ _ => trivial⟩, h⟩
  | taken | member | readFile | workingDirectory | expand | fetchModule => exact ⟨.some HEq.rfl, h⟩
  | load => exact ⟨.some ⟨rfl, trivial⟩, h⟩
  | cell | unbind | store | edit | activate => exact ⟨.some HEq.rfl, h.share _ w.fresh w.handles w.files w.modules⟩
  | identity | freeze => exact ⟨.some HEq.rfl, h.share w.store _ w.handles w.files w.modules⟩
  | adopt => exact ⟨.some ⟨rfl, trivial⟩, h.share w.store _ w.handles w.files w.modules⟩
  | findModule | settleModule => exact ⟨.some HEq.rfl, h.share w.store w.fresh w.handles w.files _⟩
  | claimModule key place =>
    simp only [World.perform, Request.rename]
    split
    · exact ⟨.none, h⟩
    · exact ⟨.some HEq.rfl, h.share w.store w.fresh w.handles w.files _⟩
    · exact ⟨.some HEq.rfl, h.share w.store w.fresh w.handles w.files _⟩
  | _ => first | exact absurd trivial hstream | exact absurd trivial htask | exact absurd trivial hkernel

/-- Twins answer a request and its twin alike, and stay twins. -/
theorem perform {r : Request} (hr : r.Allowed ρ.scheme) :
    r.TwinAnswers ρ (w.perform who r) (w'.perform who' (r.rename ρ)) := by
  by_cases hstream : r.IsStream
  · exact h.perform_stream who who' hstream hr
  by_cases htask : r.ConcernsTasks
  · exact h.perform_task who who' htask hr
  by_cases hkernel : r.ConcernsKernel
  · exact h.perform_kernel who who' hkernel
  · exact h.perform_common who who' hstream htask hkernel

end World.Twin

end DualShell
