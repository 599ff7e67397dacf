import Mathlib.Data.List.Basic
import Mathlib.Logic.Function.Basic
import DualShell.Eval.Form
import DualShell.Machine.World

/-!
# Other numbers for the same things

Channels, collectors and tasks go by the numbers that the machine gave them. A `Renaming` gives them other numbers, and
so does everything that mentions them: descriptors, surroundings, pipe ends and work. What is looked up in a renamed
table is what was there, renamed.

A renaming also says what may be done to what it renames: which channels have ends that are handed around (`pipe`), what
a collector holds already that its counterpart does not (`before`), and on which kernels code runs (`home`).
-/

namespace DualShell

/-- Other numbers for channels, collectors and tasks. -/
structure Renaming where
  channel : ChannelId → ChannelId
  collector : CollectorId → CollectorId
  task : TaskId → TaskId
  channel_injective : Function.Injective channel
  collector_injective : Function.Injective collector
  task_injective : Function.Injective task
  /-- The channels that may be written to and whose ends may be closed. -/
  pipe : ChannelId → Prop
  /-- What a collector holds before anything that its counterpart holds. -/
  before : CollectorId → Collector
  /-- The kernels that code runs on. -/
  home : KernelId → Prop

namespace Renaming

/-- A collector that may be emptied: its counterpart holds the same. -/
def Own (ρ : Renaming) (k : CollectorId) : Prop := ρ.before k = ⟨[], []⟩

end Renaming

variable (ρ : Renaming)

/-! ## Streams -/

/-- An inlet under its other number. -/
def Inlet.rename : Inlet → Inlet
  | .channel c => .channel (ρ.channel c)
  | .file h => .file h

/-- An outlet under its other number. -/
def Outlet.rename : Outlet → Outlet
  | .channel c => .channel (ρ.channel c)
  | .file h => .file h
  | .collector k => .collector (ρ.collector k)

/-- An inlet that may be closed. -/
def Inlet.Closable : Inlet → Prop
  | .channel c => ρ.pipe c
  | .file _ => True

/-- An outlet that may be written to. -/
def Outlet.Writable : Outlet → Prop
  | .channel c => ρ.pipe c
  | .file _ | .collector _ => True

/-- A connection under its other numbers. -/
def Connection.rename (p : Connection) : Connection := ⟨p.input.map (·.rename ρ), p.output.map (·.rename ρ)⟩

/-- A connection that may be used. -/
def Connection.Usable (p : Connection) : Prop := ∀ o, p.output = some o → o.Writable ρ

/-- A descriptor table under other numbers. -/
def Descriptors.rename (t : Descriptors) : Descriptors := ⟨t.entries.map fun e => (e.1, e.2.rename ρ)⟩

/-- A descriptor table that may be used. -/
def Descriptors.Usable (t : Descriptors) : Prop := ∀ e ∈ t.entries, e.2.Usable ρ

variable {ρ}

namespace Descriptors

variable {t : Descriptors}

/-- A descriptor is connected to the counterpart of what it was connected to. -/
theorem get?_rename (t : Descriptors) (fd : Nat) : (t.rename ρ).get? fd = (t.get? fd).map (·.rename ρ) := by
  unfold get? rename
  rw [List.find?_map, Option.map_map, Option.map_map]
  rfl

theorem input?_rename (t : Descriptors) (fd : Nat) : (t.rename ρ).input? fd = (t.input? fd).map (·.rename ρ) := by
  unfold input?
  rw [get?_rename]
  cases t.get? fd <;> rfl

theorem output?_rename (t : Descriptors) (fd : Nat) : (t.rename ρ).output? fd = (t.output? fd).map (·.rename ρ) := by
  unfold output?
  rw [get?_rename]
  cases t.get? fd <;> rfl

theorem expectOutput_rename (t : Descriptors) (fd : Nat) :
    (t.rename ρ).expectOutput fd = (t.expectOutput fd).map (·.rename ρ) := by
  unfold expectOutput
  rw [output?_rename]
  cases t.output? fd <;> rfl

/-- To insert a connection and to rename are done in either order. -/
theorem insert_rename (fd : Nat) (p : Connection) (es : List (Nat × Connection)) :
    insert fd (p.rename ρ) (es.map fun e => (e.1, e.2.rename ρ)) = (insert fd p es).map fun e => (e.1, e.2.rename ρ) := by
  induction es with
  | nil => rfl
  | cons e es ih =>
    simp only [insert, List.map_cons]
    split
    · rfl
    · split
      · rfl
      · rw [ih]
        rfl

/-- To connect a descriptor and to rename are done in either order. -/
theorem set_rename (t : Descriptors) (fd : Nat) (p : Option Connection) :
    (t.rename ρ).set fd (p.map (·.rename ρ)) = (t.set fd p).rename ρ := by
  cases p with
  | some p => exact congrArg Descriptors.mk (insert_rename fd p t.entries)
  | none =>
    simp only [set, rename, Option.map_none, List.filter_map]
    rfl

/-- To duplicate a descriptor and to rename are done in either order, whether or not the descriptor is open. -/
theorem duplicate_rename (t : Descriptors) (source fd : Nat) :
    (t.rename ρ).duplicate source fd = (t.duplicate source fd).map (·.rename ρ) := by
  unfold duplicate
  rw [get?_rename]
  cases t.get? source with
  | none => rfl
  | some p => exact congrArg Except.ok (set_rename t fd (some p))

/-- What a descriptor that may be used is connected to may be used. -/
theorem Usable.get? (h : t.Usable ρ) {fd : Nat} {p : Connection} (hp : t.get? fd = some p) : p.Usable ρ := by
  obtain ⟨e, he, rfl⟩ := Option.map_eq_some_iff.1 hp
  exact h e (List.mem_of_find?_eq_some he)

/-- The end that a descriptor is connected to for writing may be written to. -/
theorem Usable.output? (h : t.Usable ρ) {fd : Nat} {o : Outlet} (ho : t.output? fd = some o) : o.Writable ρ := by
  unfold Descriptors.output? at ho
  split at ho
  · rename_i hp
    exact h.get? hp o ho
  · nomatch ho

theorem Usable.expectOutput (h : t.Usable ρ) {fd : Nat} {o : Outlet} (ho : t.expectOutput fd = .ok o) : o.Writable ρ := by
  unfold Descriptors.expectOutput at ho
  split at ho
  · rename_i hp
    cases ho
    exact h.output? hp
  · nomatch ho

/-- Descriptors may be used after one was connected to what may be used. -/
theorem Usable.set (h : t.Usable ρ) (fd : Nat) {p : Option Connection} (hp : ∀ q, p = some q → q.Usable ρ) :
    (t.set fd p).Usable ρ := by
  cases p with
  | none => exact fun e he => h e (List.mem_filter.1 he).1
  | some p =>
    suffices hinsert : ∀ es : List (Nat × Connection), (∀ e ∈ es, e.2.Usable ρ) → ∀ e ∈ insert fd p es,
      e.2.Usable ρ from hinsert _ h
    intro es hes
    induction es with
    | nil => exact List.forall_mem_singleton.2 (hp p rfl)
    | cons e es ih =>
      obtain ⟨he, hes⟩ := List.forall_mem_cons.1 hes
      unfold insert
      split
      · exact List.forall_mem_cons.2 ⟨hp p rfl, hes⟩
      · split
        · exact List.forall_mem_cons.2 ⟨hp p rfl, List.forall_mem_cons.2 ⟨he, hes⟩⟩
        · exact List.forall_mem_cons.2 ⟨he, ih hes⟩

/-- Descriptors may be used after one was duplicated. -/
theorem Usable.duplicate (h : t.Usable ρ) {source fd : Nat} {t' : Descriptors} (ht : t.duplicate source fd = .ok t') :
    t'.Usable ρ := by
  unfold Descriptors.duplicate at ht
  split at ht
  · rename_i hp
    cases ht
    exact h.set fd fun q hq => by cases hq; exact h.get? hp
  · nomatch ht

theorem standard_rename (input : Inlet) (output errors : Outlet) :
    standard (input.rename ρ) (output.rename ρ) (errors.rename ρ) = (standard input output errors).rename ρ := rfl

/-- Standard descriptors may be used if the two ends may be written to. -/
theorem usable_standard {input : Inlet} {output errors : Outlet} (ho : output.Writable ρ) (he : errors.Writable ρ) :
    (standard input output errors).Usable ρ := by
  intro e hmem o heq
  simp only [standard, List.mem_cons, List.not_mem_nil, or_false] at hmem
  rcases hmem with rfl | rfl | rfl
  · nomatch heq
  · cases heq; exact ho
  · cases heq; exact he

end Descriptors

/-! ## Surroundings -/

variable (ρ)

/-- The same surroundings under other numbers. -/
def Context.rename (ctx : Context) : Context := ctx.withDescriptors (ctx.descriptors.rename ρ)

/-- Surroundings where code may run, and whose descriptors may be used. -/
structure Context.Usable (ctx : Context) : Prop where
  descriptors : ctx.descriptors.Usable ρ
  home : ρ.home ctx.kernel

/-- Pipe ends under other numbers. -/
def Wiring.rename (w : Wiring) : Wiring := ⟨w.input.map (·.rename ρ), w.output.map (·.rename ρ)⟩

/-- Pipe ends that may be used and closed. -/
structure Wiring.Usable (w : Wiring) : Prop where
  input : ∀ i, w.input = some i → i.Closable ρ
  output : ∀ o, w.output = some o → o.Writable ρ

/-- The same work under other numbers. -/
def Work.rename : Work → Work
  | .form code ctx wiring => .form code (ctx.rename ρ) (wiring.rename ρ)
  | .job p ctx id => .job p (ctx.rename ρ) id
  | .gather side c k ctx => .gather side (ρ.channel c) (ρ.collector k) (ctx.rename ρ)

/-- Work that may be done. -/
def Work.Usable : Work → Prop
  | .form _ ctx wiring => ctx.Usable ρ ∧ wiring.Usable ρ
  | .job _ ctx _ => ctx.Usable ρ
  | .gather _ _ _ ctx => ctx.Usable ρ

variable {ρ}

@[simp] theorem Context.rename_kernel (ctx : Context) : (ctx.rename ρ).kernel = ctx.kernel := rfl

@[simp] theorem Context.rename_frame (ctx : Context) : (ctx.rename ρ).frame = ctx.frame := rfl

@[simp] theorem Context.rename_captures (ctx : Context) : (ctx.rename ρ).captures = ctx.captures := rfl

@[simp] theorem Context.rename_imports (ctx : Context) : (ctx.rename ρ).imports = ctx.imports := rfl

@[simp] theorem Context.rename_descriptors (ctx : Context) : (ctx.rename ρ).descriptors = ctx.descriptors.rename ρ := rfl

/-- Other descriptors in the same place. -/
theorem Context.Usable.withDescriptors {ctx : Context} (h : ctx.Usable ρ) {t : Descriptors} (ht : t.Usable ρ) :
    (ctx.withDescriptors t).Usable ρ := ⟨ht, h.home⟩

namespace Wiring

variable {w : Wiring}

theorem usable_loose : Wiring.loose.Usable ρ := ⟨fun _ h => (nomatch h), fun _ h => (nomatch h)⟩

/-- To split wiring and to rename are done in either order. -/
theorem split_rename (w : Wiring) (fds : List Nat) :
    (w.rename ρ).split fds = (((w.split fds).1).rename ρ, ((w.split fds).2).rename ρ) := by
  unfold split rename
  cases fds.contains 0 <;> cases fds.contains 1 <;> rfl

/-- Parts of wiring that may be used may be used. -/
theorem Usable.split (h : w.Usable ρ) (fds : List Nat) : (w.split fds).1.Usable ρ ∧ (w.split fds).2.Usable ρ := by
  have hnone : ∀ {α : Type} {P : α → Prop} (a : α), (none : Option α) = some a → P a := fun _ h => nomatch h
  unfold Wiring.split
  cases fds.contains 0 <;> cases fds.contains 1
  · exact ⟨⟨hnone, hnone⟩, h⟩
  · exact ⟨⟨hnone, h.output⟩, ⟨h.input, hnone⟩⟩
  · exact ⟨⟨h.input, hnone⟩, ⟨hnone, h.output⟩⟩
  · exact ⟨h, ⟨hnone, hnone⟩⟩

/-- To install wiring and to rename are done in either order. -/
theorem install_rename (w : Wiring) (t : Descriptors) : (w.rename ρ).install (t.rename ρ) = (w.install t).rename ρ := by
  obtain ⟨input, output⟩ := w
  unfold install rename
  cases input with
  | none =>
    cases output with
    | none => rfl
    | some o => exact Descriptors.set_rename t 1 (some (.writing o))
  | some i =>
    have hi : (t.rename ρ).set 0 (some (.reading (i.rename ρ))) = (t.set 0 (some (.reading i))).rename ρ :=
      Descriptors.set_rename t 0 (some (.reading i))
    cases output with
    | none => exact hi
    | some o =>
      dsimp only [Option.map_some]
      rw [hi]
      exact Descriptors.set_rename _ 1 (some (.writing o))

/-- Descriptors may be used after wiring was installed that may be used. -/
theorem Usable.install (h : w.Usable ρ) {t : Descriptors} (ht : t.Usable ρ) : (w.install t).Usable ρ := by
  obtain ⟨input, output⟩ := w
  have hin : ∀ i, Descriptors.Usable ρ (t.set 0 (some (.reading i))) := fun i => ht.set 0 fun q hq => by
    cases hq
    exact fun _ h => nomatch h
  have hout : ∀ {t : Descriptors} o, t.Usable ρ → output = some o → Descriptors.Usable ρ (t.set 1 (some (.writing o))) :=
    fun o ht ho => ht.set 1 fun q hq => by
      cases hq
      exact fun o' ho' => by cases ho'; exact h.output o ho
  cases input <;> cases output
  · exact ht
  · exact hout _ ht rfl
  · exact hin _
  · exact hout _ (hin _) rfl

end Wiring

end DualShell
