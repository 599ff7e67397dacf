import DualShell.Eval.Assign
import DualShell.Proofs.Machine.Alone
import DualShell.Proofs.Scope.Origin

/-!
# Putting variables back

What a variable holds is seen through the references that lead to it (`World.value?`). To write through one changes that
variable and no other (`World.Settable.write`), so after variables were put back, latest first, each holds what was
saved of it earliest, and all others are as they were (`World.putBack_alone`).
-/

namespace DualShell

open Eval

/-! ## Cells -/

namespace Store

variable {s : Store}

/-- A cell holds what it was set to. -/
theorem get_set_self {c : CellId} (h : c < s.cells.size) (v : Value) : (s.set c v).get c = v := by
  simp [get, set, Array.getD_eq_getD_getElem?, h]

/-- A name found after a cell was made for one was there before, or is that one and has a new cell. -/
theorem lookup?_ensure {f g : FrameId} {name n : String} {c : CellId} (h : (s.ensure f name).2.lookup? g n = some c) :
    s.lookup? g n = some c ∨ (g = f ∧ n = name ∧ s.cells.size ≤ c ∧ c < (s.ensure f name).2.cells.size) := by
  cases hname : s.lookup? f name with
  | some c' =>
    rw [s.ensure_of_lookup? hname] at h
    exact .inl h
  | none =>
    by_cases hgn : g = f ∧ n = name
    · obtain ⟨rfl, rfl⟩ := hgn
      obtain hold | rfl := s.lookup?_of_ensure h
      · nomatch hname.symm.trans hold
      · refine .inr ⟨rfl, rfl, ?_⟩
        unfold ensure
        rw [hname]
        simp [newCell, bind]
    · unfold ensure at h
      rw [hname] at h
      exact .inl ((lookup?_bind_ne (s.newCell .empty).2 hgn _).symm.trans h)

/-- The cell that is asked for is there. -/
theorem ensure_lt {f : FrameId} {name : String} (h : ∀ {c}, s.lookup? f name = some c → c < s.cells.size) :
    (s.ensure f name).1 < (s.ensure f name).2.cells.size := by
  unfold ensure
  split
  · rename_i hc
    exact h hc
  · simp [newCell, bind]

end Store

/-! ## What references lead to -/

/-- The other machine has at least the frames, the cells and the kernels of this one. -/
structure World.Covers (w w' : World) : Prop where
  frames : w.store.frames.size ≤ w'.store.frames.size
  cells : w.store.cells.size ≤ w'.store.cells.size
  kernels : w.kernels.size ≤ w'.kernels.size

namespace World.Covers

variable {w w' w'' : World}

theorem refl (w : World) : w.Covers w := ⟨Nat.le_refl _, Nat.le_refl _, Nat.le_refl _⟩

theorem trans (h : w.Covers w') (h' : w'.Covers w'') : w.Covers w'' :=
  ⟨Nat.le_trans h.frames h'.frames, Nat.le_trans h.cells h'.cells, Nat.le_trans h.kernels h'.kernels⟩

/-- A kernel that is not there was not there. -/
theorem no_kernel {k : KernelId} (h : w.Covers w') (hk : w'.kernel? k = none) : w.kernel? k = none := by
  have hle : w'.kernels.size ≤ k := Array.getElem?_eq_none_iff.1 hk
  exact Array.getElem?_eq_none (Nat.le_trans h.kernels hle)

end World.Covers

namespace World

/-- Names lead to cells that there are. -/
def Rooted (w : World) : Prop := ∀ {f n c}, w.store.lookup? f n = some c → c < w.store.cells.size

/-- The cell that a reference leads to. -/
def cell? (w : World) (ctx : Context) : Ref → Option CellId
  | .local name => w.store.lookup? ctx.frame name
  | .captured name => takenCell? ctx.captures name
  | _ => none

/-- What a variable holds, seen through a reference that can be written; none if it was never set. -/
def value? (w : World) (ctx : Context) : Ref → Option Value
  | .env name => (Named.get? (w.environment ctx.kernel) name).map .string
  | ref => (w.cell? ctx ref).map w.store.get

/-- What is read through a reference. A variable that was never set reads as the empty string. -/
def reads (w : World) (ctx : Context) (ref : Ref) : Value := (w.value? ctx ref).getD .empty

/-- Two references are about one variable. -/
def Same (w : World) (ctx : Context) (r r' : Ref) : Prop := r = r' ∨ ∃ c, w.cell? ctx r = some c ∧ w.cell? ctx r' = some c

/-- A reference leads to a variable that can be read and written. -/
def Reaches (w : World) (ctx : Context) : Ref → Prop
  | .local _ => ctx.frame < w.store.frames.size
  | .captured name => ∃ c, takenCell? ctx.captures name = some c ∧ c < w.store.cells.size
  | .env _ => True
  | _ => False

/-- And the value can be given to it: a variable of an environment holds a string, and nothing is held where there is no
kernel. -/
def Settable (w : World) (ctx : Context) (ref : Ref) (v : Value) : Prop :=
  w.Reaches ctx ref ∧ ∀ name, ref = .env name → ∃ text, v = .string text ∧ (w.kernel? ctx.kernel = none → text = "")

/-- Between two machines, no variables changed but those of some references. -/
structure Spares (w : World) (ctx : Context) (refs : List Ref) (w' : World) : Prop where
  covers : w.Covers w'
  /-- Each name keeps its cell. -/
  bound : ∀ {f n c}, w.store.lookup? f n = some c → w'.store.lookup? f n = some c
  /-- If one got a cell, then that is a new cell and the name is that of one of the references. -/
  fresh : ∀ {f n c}, w'.store.lookup? f n = some c → w.store.lookup? f n = some c ∨
    (f = ctx.frame ∧ .local n ∈ refs ∧ w.store.cells.size ≤ c ∧ c < w'.store.cells.size)
  /-- What is in other cells is there still. -/
  cells : ∀ {c}, c < w.store.cells.size → (∀ ref ∈ refs, w.cell? ctx ref ≠ some c) → w'.store.get c = w.store.get c
  environment : ∀ {k n}, ¬(k = ctx.kernel ∧ .env n ∈ refs) → Named.get? (w'.environment k) n = Named.get? (w.environment k) n

variable {w w' w'' : World} {ctx : Context} {ref r r' : Ref} {refs refs' : List Ref} {who : TaskId} {v : Value}

/-- The value of a local variable is that of its cell. -/
@[simp] theorem value?_local (name : String) :
    w.value? ctx (.local name) = (w.store.lookup? ctx.frame name).map w.store.get := rfl

/-- The value of a captured variable is that of the cell that was taken along. -/
@[simp] theorem value?_captured (name : String) (level : Nat) :
    w.value? ctx (@Ref.captured level name) = (takenCell? ctx.captures name).map w.store.get := rfl

/-- The value of an environment variable is its text. -/
@[simp] theorem value?_env (name : String) :
    w.value? ctx (.env name) = (Named.get? (w.environment ctx.kernel) name).map .string := rfl

theorem Same.symm (h : w.Same ctx r r') : w.Same ctx r' r := h.imp Eq.symm fun ⟨c, hr, hr'⟩ => ⟨c, hr', hr⟩

theorem Same.trans {r'' : Ref} (h : w.Same ctx r r') (h' : w.Same ctx r' r'') : w.Same ctx r r'' := by
  obtain rfl | ⟨c, hr, hr'⟩ := h
  · exact h'
  · obtain rfl | ⟨c', hr', hr''⟩ := h'
    · exact .inr ⟨c, hr, hr'⟩
    · cases hr'.symm.trans ‹w.cell? ctx r' = some c›
      exact .inr ⟨c, hr, hr''⟩

/-- Variables that are the same have the same value. -/
theorem Same.value?_eq (h : w.Same ctx r r') : w.value? ctx r = w.value? ctx r' := by
  have hvalue : ∀ {ref c}, w.cell? ctx ref = some c → w.value? ctx ref = some (w.store.get c) := by
    intro ref c hc
    cases ref with
    | «local» | captured => exact congrArg (Option.map w.store.get) hc
    | _ => nomatch hc
  obtain rfl | ⟨c, hr, hr'⟩ := h
  · rfl
  · rw [hvalue hr, hvalue hr']

/-- What could be reached can be. -/
theorem Reaches.mono (h : w.Reaches ctx ref) (hw : w.Covers w') : w'.Reaches ctx ref := by
  cases ref with
  | «local» => exact Nat.lt_of_lt_of_le h hw.frames
  | captured => exact h.imp fun c hc => ⟨hc.1, Nat.lt_of_lt_of_le hc.2 hw.cells⟩
  | _ => exact h

/-- What could be set can be. -/
theorem Settable.mono (h : w.Settable ctx ref v) (hw : w.Covers w') : w'.Settable ctx ref v :=
  ⟨h.1.mono hw, fun name hname => (h.2 name hname).imp fun _ ht => ⟨ht.1, fun hk => ht.2 (hw.no_kernel hk)⟩⟩

/-! ## Other variables -/

namespace Spares

/-- Where nothing was done every variable is spared. -/
theorem refl (w : World) (ctx : Context) : w.Spares ctx [] w := ⟨.refl w, id, .inl, fun _ _ => rfl, fun _ => rfl⟩

/-- More may have changed. -/
theorem mono (h : w.Spares ctx refs w') (hsub : refs ⊆ refs') : w.Spares ctx refs' w' where
  covers := h.covers
  bound := h.bound
  fresh hc := (h.fresh hc).imp_right fun ⟨hf, hn, hnew⟩ => ⟨hf, hsub hn, hnew⟩
  cells hlt hother := h.cells hlt fun ref href => hother ref (hsub href)
  environment hother := h.environment fun hk => hother ⟨hk.1, hsub hk.2⟩

/-- Machines that have the same variables. -/
theorem of_eq (hstore : w'.store = w.store) (hkernels : w'.kernels = w.kernels) : w.Spares ctx [] w' := by
  have henvironment : ∀ k, w'.environment k = w.environment k := fun k => by
    unfold World.environment World.kernel?
    rw [hkernels]
  refine ⟨⟨?_, ?_, ?_⟩, ?_, ?_, ?_, ?_⟩
  · rw [hstore]
  · rw [hstore]
  · rw [hkernels]
  · rw [hstore]
    exact id
  · rw [hstore]
    exact .inl
  · rw [hstore]
    exact fun _ _ => rfl
  · intro k n _
    rw [henvironment]

/-- Kernels keep their frames. -/
theorem rooted (h : w.Spares ctx refs w') (hw : w.Rooted) : w'.Rooted := fun hc => by
  obtain hold | ⟨-, -, -, hlt⟩ := h.fresh hc
  · exact Nat.lt_of_lt_of_le (hw hold) h.covers.cells
  · exact hlt

/-- A variable that is spared keeps its cell. -/
theorem cell?_kept (h : w.Spares ctx refs w') {c : CellId} (hc : w.cell? ctx ref = some c) : w'.cell? ctx ref = some c := by
  cases ref with
  | «local» => exact h.bound hc
  | captured => exact hc
  | _ => nomatch hc

/-- A cell that was there is led to by the references that led to it. -/
theorem cell?_old (h : w.Spares ctx refs w') {c : CellId} (hlt : c < w.store.cells.size) (hc : w'.cell? ctx ref = some c) :
    w.cell? ctx ref = some c := by
  cases ref with
  | «local» => exact (h.fresh hc).resolve_right fun hnew => absurd hnew.2.2.1 (Nat.not_le.2 hlt)
  | captured => exact hc
  | _ => nomatch hc

/-- Changes one after another spare what both do. -/
theorem trans (h : w.Spares ctx refs w') (h' : w'.Spares ctx refs' w'') : w.Spares ctx (refs ++ refs') w'' where
  covers := h.covers.trans h'.covers
  bound hc := h'.bound (h.bound hc)
  fresh hc := by
    obtain hc | ⟨hf, hn, hge, hlt⟩ := h'.fresh hc
    · exact (h.fresh hc).imp_right fun ⟨hf, hn, hge, hlt⟩ =>
        ⟨hf, List.mem_append_left _ hn, hge, Nat.lt_of_lt_of_le hlt h'.covers.cells⟩
    · exact .inr ⟨hf, List.mem_append_right _ hn, Nat.le_trans h.covers.cells hge, hlt⟩
  cells hlt hother := by
    have hfirst := h.cells hlt fun ref href => hother ref (List.mem_append_left _ href)
    refine (h'.cells (Nat.lt_of_lt_of_le hlt h.covers.cells) fun ref href hc => ?_).trans hfirst
    exact hother ref (List.mem_append_right _ href) (h.cell?_old hlt hc)
  environment hother :=
    (h'.environment fun hk => hother ⟨hk.1, List.mem_append_right _ hk.2⟩).trans
      (h.environment fun hk => hother ⟨hk.1, List.mem_append_left _ hk.2⟩)

/-- A name gets a cell if it has none. -/
theorem ensure (name : String) : w.Spares ctx [.local name] { w with store := (w.store.ensure ctx.frame name).2 } where
  covers := ⟨Nat.le_of_eq (w.store.size_ensure ctx.frame name).symm, w.store.cells_le_ensure ctx.frame name, Nat.le_refl _⟩
  bound hc := w.store.lookup?_ensure_of_some hc
  fresh hc := (Store.lookup?_ensure hc).imp_right fun ⟨hf, hn, hge, hlt⟩ => ⟨hf, hn ▸ List.mem_singleton_self _, hge, hlt⟩
  cells hlt _ := w.store.get_ensure hlt ctx.frame name
  environment _ := rfl

/-- What is in the cell of a variable is replaced. -/
theorem set {c : CellId} (hc : w.cell? ctx ref = some c) (v : Value) :
    w.Spares ctx [ref] { w with store := w.store.set c v } where
  covers := ⟨Nat.le_refl _, by simp [Store.set], Nat.le_refl _⟩
  bound := id
  fresh := .inl
  cells {c'} _ hother := by
    have hne : c ≠ c' := by
      rintro rfl
      exact hother _ (List.mem_singleton_self _) hc
    exact Store.get_set_ne _ hne v
  environment _ := rfl

/-- A variable that is none of those that changed. -/
theorem value?_eq (h : w.Spares ctx refs w') (hw : w.Rooted) (hreaches : w.Reaches ctx ref)
    (hother : ∀ r ∈ refs, ¬w.Same ctx r ref) : w'.value? ctx ref = w.value? ctx ref := by
  have hcell : ∀ {c}, w.cell? ctx ref = some c → c < w.store.cells.size → w'.store.get c = w.store.get c := fun hc hlt =>
    h.cells hlt fun r hr hc' => hother r hr (.inr ⟨_, hc', hc⟩)
  cases ref with
  | env name => exact congrArg (Option.map Value.string) (h.environment fun hk => hother _ hk.2 (.inl rfl))
  | «local» name =>
    cases hc : w.store.lookup? ctx.frame name with
    | some c =>
      simp only [value?_local, hc, h.bound hc]
      exact congrArg some (hcell hc (hw hc))
    | none =>
      have hc' : w'.store.lookup? ctx.frame name = none := by
        cases hc' : w'.store.lookup? ctx.frame name with
        | none => rfl
        | some c =>
          obtain hold | ⟨-, hmem, -⟩ := h.fresh hc'
          · nomatch hc.symm.trans hold
          · exact absurd (.inl rfl) (hother _ hmem)
      simp only [value?_local, hc, hc', Option.map_none]
  | captured name =>
    obtain ⟨c, hc, hlt⟩ := hreaches
    simp only [value?_captured, hc]
    exact congrArg some (hcell hc hlt)
  | builtin | member => exact hreaches.elim

/-- What was one variable is one still. -/
theorem same (h : w.Spares ctx refs w') (hsame : w.Same ctx r r') : w'.Same ctx r r' :=
  hsame.imp_right fun ⟨c, hr, hr'⟩ => ⟨c, h.cell?_kept hr, h.cell?_kept hr'⟩

/-- What is one variable was one before, if only one has changed. -/
theorem same_before (h : w.Spares ctx [ref] w') (hr : w.Reaches ctx r) (hr' : w.Reaches ctx r') (hw : w.Rooted)
    (hsame : w'.Same ctx r r') : w.Same ctx r r' := by
  obtain heq | ⟨c, hc, hc'⟩ := hsame
  · exact .inl heq
  · rcases Nat.lt_or_ge c w.store.cells.size with hlt | hge
    · exact .inr ⟨c, h.cell?_old hlt hc, h.cell?_old hlt hc'⟩
    · -- Only the name of a local variable leads to a new cell.
      have hlocal : ∀ {q : Ref}, w.Reaches ctx q → w'.cell? ctx q = some c → q = ref := by
        intro q hq hqc
        cases q with
        | «local» name =>
          obtain hold | ⟨-, hmem, -⟩ := h.fresh hqc
          · exact absurd (hw hold) (Nat.not_lt.2 hge)
          · exact List.mem_singleton.1 hmem
        | captured name =>
          obtain ⟨c', hc', hlt⟩ := hq
          cases hqc.symm.trans hc'
          exact absurd hlt (Nat.not_lt.2 hge)
        | _ => nomatch hqc
      exact .inl ((hlocal hr hc).trans (hlocal hr' hc').symm)

end Spares

/-! ## Reading and writing -/

/-- To read a variable gives what it holds. -/
theorem Reaches.read (h : w.Reaches ctx ref) : (ref.read ctx).Alone who (fun o _ => o = .ok (w.reads ctx ref)) w := by
  cases ref with
  | «local» name =>
    have hcell : w.perform who (.cell ctx.frame name .read) =
        (some (w.store.ensure ctx.frame name).1, { w with store := (w.store.ensure ctx.frame name).2 }) := rfl
    unfold Ref.read Ref.cell
    refine alone_ask_bind hcell (alone_ask rfl (congrArg Except.ok ?_))
    rw [reads, value?_local]
    unfold Store.ensure
    cases w.store.lookup? ctx.frame name with
    | some c => rfl
    | none => simp [Store.newCell, Store.bind, Store.get, Array.getD_eq_getD_getElem?]
  | captured name =>
    obtain ⟨c, hc, -⟩ := h
    unfold Ref.read Ref.cell
    refine alone_bind (alone_ask_bind rfl ?_)
    rw [hc]
    refine alone_pure (alone_ask rfl (congrArg Except.ok ?_))
    simp only [reads, value?_captured, hc]
    rfl
  | env name =>
    unfold Ref.read
    refine alone_ask_bind rfl (alone_pure (congrArg Except.ok ?_))
    rw [reads, value?_env]
    cases Named.get? (w.environment ctx.kernel) name <;> rfl
  | builtin | member => exact h.elim

/-- A look at a variable before it is set; one that was taken along has to be there. -/
theorem peek_alone (hwritable : ref.isWritable = true)
    (h : ∀ {level name}, ref = @Ref.captured level name → w.Reaches ctx ref) :
    (ref.peek ctx).Alone who (fun o w' => o = .ok (w.value? ctx ref) ∧ w' = w) w := by
  cases ref with
  | «local» name => exact alone_ask rfl ⟨rfl, rfl⟩
  | captured name =>
    obtain ⟨c, hc, -⟩ := h rfl
    unfold Ref.peek Ref.read Ref.cell
    refine alone_bind (alone_bind (alone_ask_bind rfl ?_))
    rw [hc]
    refine alone_pure (alone_ask rfl (alone_pure ⟨congrArg Except.ok ?_, rfl⟩))
    simp only [value?_captured, hc]
    rfl
  | env name => exact alone_ask_bind rfl (alone_pure ⟨rfl, rfl⟩)
  | builtin | member => nomatch hwritable

/-- To set an environment variable changes that one. -/
theorem environment_insert (k k' : KernelId) (name text : String) :
    (w.modifyKernel k fun kernel => { kernel with env := Named.insert name text kernel.env }).environment k' =
      if k' = k ∧ (w.kernel? k).isSome then Named.insert name text (w.environment k') else w.environment k' := by
  unfold World.environment World.kernel? modifyKernel
  rw [Array.getElem?_modify]
  by_cases hk : k = k'
  · subst hk
    cases w.kernels[k]? <;> simp
  · have hk' : k' ≠ k := fun h => hk h.symm
    rw [if_neg hk, if_neg fun h => hk' h.1]

/-- A variable that is no variable of an environment has a cell, or gets one that holds what is read of it. -/
theorem Reaches.cell (h : w.Reaches ctx ref) (henv : ∀ name, ref ≠ .env name) (hw : w.Rooted) (access : Access) :
    (ref.cell ctx access).Alone who (fun o w' => ∃ c, o = .ok c ∧ w.Spares ctx [ref] w' ∧ w'.cell? ctx ref = some c ∧
      c < w'.store.cells.size ∧ w'.store.get c = w.reads ctx ref) w := by
  cases ref with
  | «local» name =>
    have hcell : w.perform who (.cell ctx.frame name access) =
        (some (w.store.ensure ctx.frame name).1, { w with store := (w.store.ensure ctx.frame name).2 }) := rfl
    unfold Ref.cell
    refine alone_ask hcell ⟨_, rfl, .ensure name, w.store.lookup?_ensure_self h name, Store.ensure_lt hw, ?_⟩
    rw [reads, value?_local]
    unfold Store.ensure
    cases w.store.lookup? ctx.frame name with
    | some c => rfl
    | none => simp [Store.newCell, Store.bind, Store.get, Array.getD_eq_getD_getElem?]
  | captured name =>
    obtain ⟨c, hc, hlt⟩ := h
    unfold Ref.cell
    refine alone_ask_bind rfl ?_
    rw [hc]
    refine alone_pure ⟨c, rfl, (Spares.refl w ctx).mono (List.nil_subset _), hc, hlt, ?_⟩
    simp only [reads, value?_captured, hc]
    rfl
  | env name => exact absurd rfl (henv name)
  | builtin | member => exact h.elim

/-- A variable with a cell reads as the cell. -/
theorem reads_cell {c : CellId} (hc : w.cell? ctx ref = some c) : w.reads ctx ref = w.store.get c := by
  cases ref with
  | «local» | captured => exact congrArg (fun o => (Option.map w.store.get o).getD .empty) hc
  | _ => nomatch hc

/-- What is put into the cell of a variable is read of it. -/
theorem reads_set {c : CellId} (hc : w.cell? ctx ref = some c) (hlt : c < w.store.cells.size) (v : Value) :
    World.reads { w with store := w.store.set c v } ctx ref = v := by
  have hc' : World.cell? { w with store := w.store.set c v } ctx ref = some c := hc
  exact (reads_cell hc').trans (Store.get_set_self hlt v)

/-- A variable that has a cell can be given any value. -/
theorem Reaches.store (h : w.Reaches ctx ref) (henv : ∀ name, ref ≠ .env name) (hw : w.Rooted) (v : Value) :
    (ref.cell ctx .write >>= fun c => ask (.store c v)).Alone who (fun o w' => w.Spares ctx [ref] w' ∧ o = .ok () ∧
      w'.reads ctx ref = v) w := by
  refine alone_bind (Task.Alone.mono (h.cell henv hw .write) ?_)
  rintro o w₁ ⟨c, rfl, hspares, hc, hlt, -⟩
  have hboth : [ref] ++ [ref] ⊆ [ref] := by simp
  exact alone_ask rfl ⟨(hspares.trans (.set hc v)).mono hboth, rfl, reads_set hc hlt v⟩

/-- To write a variable sets it, and no other one. It fails, and changes nothing, if the value cannot be given to the
variable. -/
theorem Reaches.write (h : w.Reaches ctx ref) (hw : w.Rooted) (v : Value) :
    (ref.write ctx v).Alone who (fun o w' => w.Spares ctx [ref] w' ∧
      ((o = .ok () ∧ (w.Settable ctx ref v → w'.reads ctx ref = v)) ∨
        (w' = w ∧ ¬w.Settable ctx ref v ∧ ∃ ex, o = .error ex))) w := by
  cases ref with
  | «local» | captured =>
    refine Task.Alone.mono (h.store (fun _ => Ref.noConfusion) hw v) fun o w' ho => ?_
    obtain ⟨hspares, rfl, hreads⟩ := ho
    exact ⟨hspares, .inl ⟨rfl, fun _ => hreads⟩⟩
  | env name =>
    have hrefused : (∀ text, v ≠ .string text) → ¬w.Settable ctx (.env name) v := fun hv hs =>
      (hs.2 name rfl).elim fun text ht => hv text ht.1
    unfold Ref.write
    cases v with
    | string text =>
      refine alone_ask rfl ?_
      refine ⟨⟨⟨Nat.le_refl _, Nat.le_refl _, ?_⟩, id, .inl, fun _ _ => rfl, fun {k n} hother => ?_⟩,
        .inl ⟨rfl, fun hs => ?_⟩⟩
      · simp [modifyKernel]
      · rw [environment_insert]
        split
        · rename_i hk
          obtain ⟨rfl, -⟩ := hk
          have hne : n ≠ name := by
            rintro rfl
            exact hother ⟨rfl, List.mem_singleton_self _⟩
          exact Named.get?_insert_ne hne _ _
        · rfl
      · rw [reads, value?_env, environment_insert]
        cases hk : w.kernel? ctx.kernel with
        | some kernel =>
          rw [if_pos ⟨rfl, rfl⟩, Named.get?_insert_self]
          rfl
        | none =>
          obtain ⟨_, htext, hnone⟩ := hs.2 name rfl
          cases htext
          rw [if_neg (fun h => Bool.false_ne_true h.2), hnone hk]
          unfold World.environment
          rw [hk]
          rfl
    | _ => exact alone_fail ⟨(Spares.refl w ctx).mono (List.nil_subset _),
        .inr ⟨rfl, hrefused (fun _ => Value.noConfusion), _, rfl⟩⟩
  | builtin | member => exact h.elim

/-- To replace what is at the end of a path of keys in a variable changes no other one, and nothing at all if it fails. -/
theorem Reaches.edit (h : w.Reaches ctx ref) (henv : ∀ name, ref ≠ .env name) (hw : w.Rooted) (ks : List Value) (v : Value) :
    (ref.edit ctx (.replace ks v)).Alone who (fun o w' => w.Spares ctx [ref] w' ∧
      ((o = .ok () ∧ (w.reads ctx ref).assocPath ks v = .ok (w'.reads ctx ref)) ∨
        ∃ cause, (w.reads ctx ref).assocPath ks v = .error cause ∧ o = .error (.ofCause cause) ∧
        w'.reads ctx ref = w.reads ctx ref)) w := by
  unfold Ref.edit
  refine alone_bind (Task.Alone.mono (h.cell henv hw .edit) ?_)
  rintro o w₁ ⟨c, rfl, hspares, hc, hlt, hget⟩
  have hboth : [ref] ++ [ref] ⊆ [ref] := by simp
  have hupdate : w₁.perform who (.edit c (.replace ks v)) = (some (w₁.store.update c (Edit.replace ks v).apply).1,
    { w₁ with store := (w₁.store.update c (Edit.replace ks v).apply).2 }) := rfl
  have happly : (Edit.replace ks v).apply (w₁.store.get c) = (w.reads ctx ref).assocPath ks v :=
    congrArg (Value.assocPath · ks v) hget
  unfold Store.update at hupdate
  rw [happly] at hupdate
  cases hu : (w.reads ctx ref).assocPath ks v with
  | ok u =>
    rw [hu] at hupdate
    refine alone_ask_bind hupdate (alone_pure ⟨(hspares.trans (.set hc u)).mono hboth, .inl ⟨rfl, ?_⟩⟩)
    rw [reads_set hc hlt u]
  | error cause =>
    rw [hu] at hupdate
    refine alone_ask_bind hupdate (alone_throw ⟨hspares, .inr ⟨cause, rfl, rfl, ?_⟩⟩)
    exact (reads_cell hc).trans hget

/-- A variable that can be set is written, and reads as what was written. -/
theorem Settable.write (h : w.Settable ctx ref v) (hw : w.Rooted) :
    (ref.write ctx v).Alone who (fun o w' => o = .ok () ∧ w.Spares ctx [ref] w' ∧ w'.reads ctx ref = v) w := by
  refine Task.Alone.mono (h.1.write hw v) fun o w' ho => ?_
  obtain ⟨hspares, ⟨rfl, hset⟩ | ⟨-, hnot, -⟩⟩ := ho
  · exact ⟨rfl, hspares, hset h⟩
  · exact absurd h hnot

/-- A variable can be given what it holds. -/
theorem Reaches.settable (h : w.Reaches ctx ref) : w.Settable ctx ref (w.reads ctx ref) := by
  refine ⟨h, ?_⟩
  rintro name rfl
  rw [reads, value?_env]
  refine ⟨(Named.get? (w.environment ctx.kernel) name).getD "", ?_, fun hk => ?_⟩
  · cases Named.get? (w.environment ctx.kernel) name <;> rfl
  · unfold World.environment
    rw [hk]
    rfl

/-! ## Putting back -/

/-- What was saved of variables, latest first, is in them again: what was saved of each of them earliest. -/
def Restored (ctx : Context) (saved : List Saved) (w w' : World) : Prop :=
  ∀ {newer older s ref}, saved = newer ++ s :: older → (∀ t ∈ older, ¬w.Same ctx t.1 s.1) → w.Reaches ctx ref →
    w.Same ctx s.1 ref → w'.reads ctx ref = s.2.getD .empty

/-- Variables are put back, all of them and no others. -/
theorem putBack_alone : (saved : List Saved) → ∀ {w : World}, w.Rooted →
    (∀ s ∈ saved, w.Settable ctx s.1 (s.2.getD .empty)) →
    (putBack ctx saved).Alone who (fun o w' => o = .ok () ∧ w.Spares ctx (saved.map (·.1)) w' ∧ Restored ctx saved w w') w
  | [], w, _, _ => ⟨rfl, .refl w ctx, fun h => by simp at h⟩
  | (ref, prior) :: rest, w, hw, hsettable => by
    obtain ⟨hhead, hrest⟩ := List.forall_mem_cons.1 hsettable
    unfold putBack
    refine Task.Alone.bind (Task.Alone.mono (hhead.write hw) ?_)
    rintro o w₁ ⟨rfl, hspares, hset⟩
    refine Task.Alone.bind (Task.Alone.mono (putBack_alone rest (hspares.rooted hw) fun s hs =>
      (hrest s hs).mono hspares.covers) ?_)
    rintro o w' ⟨rfl, hspares', hrestored⟩
    refine ⟨rfl, hspares.trans hspares', fun {newer older s ref'} hsaved hfirst hreaches hsame => ?_⟩
    have hsame' : ∀ {t}, t ∈ rest → ∀ {q}, w.Reaches ctx q → w₁.Same ctx t.1 q → w.Same ctx t.1 q := fun ht _ hq =>
      hspares.same_before (hrest _ ht).1 hq hw
    cases newer with
    | nil =>
      -- What was saved earliest is put back now, and nothing that comes later is about the same variable.
      cases hsaved
      have hother : ∀ r ∈ rest.map (·.1), ¬w₁.Same ctx r ref' := by
        intro r hr hsame₁
        obtain ⟨t, ht, rfl⟩ := List.mem_map.1 hr
        exact hfirst t ht ((hsame' ht hreaches hsame₁).trans hsame.symm)
      rw [reads, hspares'.value?_eq (hspares.rooted hw) (hreaches.mono hspares.covers) hother,
        ← (hspares.same hsame).value?_eq]
      exact hset
    | cons s₀ newer =>
      obtain ⟨-, rfl⟩ := List.cons.inj hsaved
      refine hrestored rfl (fun t ht hsame₁ => hfirst t ht ?_) (hreaches.mono hspares.covers) (hspares.same hsame)
      have hs : s ∈ newer ++ s :: older := List.mem_append_right _ List.mem_cons_self
      exact hsame' (List.mem_append_right _ (List.mem_cons_of_mem _ ht)) (hrest s hs).1 hsame₁

end World

end DualShell
