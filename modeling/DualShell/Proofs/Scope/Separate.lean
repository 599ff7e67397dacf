import Mathlib
import DualShell.Proofs.Scope.ReadOnly

/-!
# Variables are apart

A cell is made when a name of a frame is first reached for, and is that variable's for good: no cell is ever held under
two names or in two frames, however closures, namespaces, recursion and deletion pass cells around (`Separate.slots`). A
call has a frame that there was not before, and all its variables have cells that there were not before
(`Separate.called`). So a change that code makes to a variable is a change to that variable of that activation, and to
no other (`Separate.changed`), and a function that assigns to its parameters changes nothing of its caller's
(`Separate.passed`). All of it holds of every history (`History.separate`).
-/

namespace DualShell

/-- A store that the machine had in a history: before or after an answer, or at last. -/
inductive Store.Seen (ds : List Deed) (p : Pool) : Store → Prop
  | before {who w r x w'} (hd : .answered who w r x w' ∈ ds) : Seen ds p w.store
  | after {who w r x w'} (hd : .answered who w r x w' ∈ ds) : Seen ds p w'.store
  | last : Seen ds p p.world.store

/-! ## Layouts that know where all cells are from -/

/-- The layout knows what each cell was made for, and that no variable of a call had its cell before the call. -/
structure Layout.Settled (G : Layout) (ds : List Deed) (w : World) : Prop where
  made : ∀ c, c < w.store.cells.size → ∃ f n, G.slot c = some (f, n)
  framed : ∀ {c f n}, G.slot c = some (f, n) → f < w.store.frames.size
  found : ∀ {who w₀ r x w₁}, .answered who w₀ r x w₁ ∈ ds →
    ∀ {f n c}, (w₀.store.lookup? f n = some c ∨ w₁.store.lookup? f n = some c) →
    G.slot c = some (f, n)
  older : ∀ {who w₀ r x w₁}, .answered who w₀ r x w₁ ∈ ds → w₀.store.cells.size ≤ w.store.cells.size
  born : ∀ {who w₀ home vars imports f w₁ c n}, .answered who w₀ (.activate home vars imports) f w₁ ∈ ds →
    G.slot c = some (f, n) → w₀.store.cells.size ≤ c

namespace Layout

variable {G G' : Layout} {ds ds' : List Deed} {w w' : World}

/-- On an empty machine all cells are known. -/
theorem Settled.create (files : FileTree) (source : ModuleSource) : Layout.empty.Settled [] (.create files source) where
  made _ hc := absurd hc (Nat.not_lt_zero _)
  framed hc := nomatch hc
  found hd := nomatch hd
  older hd := nomatch hd
  born hd := nomatch hd

/-- A cell that was there is still the one of the same name of the same frame. -/
theorem Settled.slot_of_lt (h : G.Settled ds w) (hle : G.Le G') {c : CellId} (hc : c < w.store.cells.size)
    {s : FrameId × String} (hs : G'.slot c = some s) : G.slot c = some s := by
  obtain ⟨f, n, hslot⟩ := h.made c hc
  rw [← hs, hslot]
  exact (hle.slot c _ hslot).symm

/-- What is known stays known while the store grows. -/
theorem Settled.grown (h : G.Settled ds w) (hg : G.Grown ds ds' w w' G') : G'.Settled (ds ++ ds') w' where
  made c hc := by
    rcases Nat.lt_or_ge c w.store.cells.size with hlt | hge
    · obtain ⟨f, n, hslot⟩ := h.made c hlt
      exact ⟨f, n, hg.le.slot c _ hslot⟩
    · obtain ⟨f, n, hfound⟩ := hg.stores.bound c hge hc
      exact ⟨f, n, hg.fits'.slot hfound⟩
  framed {c f n} hslot := by
    rcases Nat.lt_or_ge c w.store.cells.size with hlt | hge
    · exact Nat.lt_of_lt_of_le (h.framed (h.slot_of_lt hg.le hlt hslot)) hg.stores.frames
    · obtain ⟨g, m, hfound⟩ := hg.stores.bound c hge (hg.fits'.cells hslot)
      cases (hg.fits'.slot hfound).symm.trans hslot
      exact hg.fits'.frames (hg.fits'.binds hfound)
  found {who w₀ r x w₁} hd f n c hfound := by
    rcases List.mem_append.1 hd with hd | hd
    · exact hg.le.slot c _ (h.found hd hfound)
    · obtain ⟨rfl, rfl, -⟩ := hg.answered hd
      exact hfound.elim (fun hfound => hg.le.slot c _ (hg.fits.slot hfound)) hg.fits'.slot
  older hd := by
    rcases List.mem_append.1 hd with hd | hd
    · exact Nat.le_trans (h.older hd) hg.stores.cells
    · obtain ⟨rfl, -, -⟩ := hg.answered hd
      exact hg.stores.cells
  born {who w₀ home vars imports f w₁ c n} hd hslot := by
    rcases Nat.lt_or_ge c w.store.cells.size with hlt | hge
    · have hold := h.slot_of_lt hg.le hlt hslot
      rcases List.mem_append.1 hd with hd | hd
      · exact h.born hd hold
      · -- The frame of a call that is made now had no cells.
        obtain ⟨rfl, -, hx⟩ := hg.answered hd
        cases hx
        exact absurd (h.framed hold) (Nat.lt_irrefl _)
    · rcases List.mem_append.1 hd with hd | hd
      · exact Nat.le_trans (h.older hd) hge
      · obtain ⟨rfl, -, -⟩ := hg.answered hd
        exact hge

/-- A cell that is found under a name in any store of the history was made for it. -/
theorem Settled.slot_of_seen {p : Pool} (h : G.Settled ds p.world) (hfits : p.world.store.Fits G (Unbound ds)) {s : Store}
    (hs : s.Seen ds p) {f : FrameId} {n : String} {c : CellId} (hc : s.lookup? f n = some c) : G.slot c = some (f, n) := by
  cases hs with
  | before hd => exact h.found hd (.inl hc)
  | after hd => exact h.found hd (.inr hc)
  | last => exact hfits.slot hc

end Layout

/-! ## Changes -/

/-- Whoever aims at a cell uses it. -/
theorem Deed.Aims.uses {d : Deed} {who : TaskId} {f g : FrameId} {n : String} {c : CellId} (h : d.Aims who f g n c) :
    d.Uses g n c := by
  cases d with
  | answered actor w r x w' =>
    cases r with
    | cell | taken => exact h.places
    | _ => exact h.elim
  | _ => exact h.elim

/-- A request about what a cell holds changes what that cell holds at most. -/
theorem Request.ChangesCell.perform {r : Request} {c : CellId} (hr : r.ChangesCell c) (w : World) (who : TaskId) :
    (w.perform who r).2.store.frames = w.store.frames ∧ ∀ c', c' ≠ c →
    (w.perform who r).2.store.get c' = w.store.get c' := by
  cases r with
  | store c₁ v =>
    cases hr
    exact ⟨rfl, fun c' hne => Store.get_set_ne _ hne.symm v⟩
  | edit c₁ change =>
    cases hr
    simp only [World.perform, Store.update]
    split
    · exact ⟨rfl, fun c' hne => Store.get_set_ne _ hne.symm _⟩
    · exact ⟨rfl, fun _ _ => rfl⟩
  | _ => exact hr.elim

/-- A variable holds what it held if only another cell may have changed. -/
theorem Store.getVar?_congr {s s' : Store} {c : CellId} (hframes : s'.frames = s.frames)
    (hcells : ∀ c', c' ≠ c → s'.get c' = s.get c')
    {f : FrameId} {n : String} (hne : s.lookup? f n ≠ some c) : s'.getVar? f n = s.getVar? f n := by
  have hlookup : s'.lookup? f n = s.lookup? f n := by rw [lookup?_eq, lookup?_eq, hframes]
  unfold Store.getVar?
  rw [hlookup]
  cases hc : s.lookup? f n with
  | none => rfl
  | some c' => exact congrArg some (hcells c' fun heq => hne (heq ▸ hc))

/-! ## Histories -/

/-- Variables share cells only where they are the same variable of the same activation. -/
structure Separate (ds : List Deed) (p : Pool) : Prop where
  /-- No cell is held under two names or in two frames, be it at two different times. -/
  slots : ∀ {s s' : Store} {f f' : FrameId} {n n' : String} {c : CellId}, Store.Seen ds p s → Store.Seen ds p s' →
    s.lookup? f n = some c → s'.lookup? f' n' = some c → f = f' ∧ n = n'
  /-- The cell that code is led to as that of a variable, be it of its own frame or of one around, is held nowhere else. -/
  used : ∀ {d : Deed} {g : FrameId} {n : String} {c : CellId} {s : Store} {f : FrameId} {n' : String}, d ∈ ds →
    d.Uses g n c → Store.Seen ds p s → s.lookup? f n' = some c → f = g ∧ n' = n
  /-- A call makes its frame, with a cell for each parameter. All cells that variables of this frame ever have are made
  from then on. -/
  called : ∀ {who : TaskId} {w : World} {home : Option FrameId} {vars : List (String × Value)} {imports : List String}
    {f : FrameId} {w' : World}, .answered who w (.activate home vars imports) f w' ∈ ds →
    w.store.frames[f]? = none ∧ (w'.store.frames[f]?).map (·.home) = some home ∧
    (∀ v ∈ vars, ∃ c, w'.store.lookup? f v.1 = some c) ∧
      (∀ {s : Store} {n : String} {c : CellId}, Store.Seen ds p s → s.lookup? f n = some c → w.store.cells.size ≤ c) ∧
      ∀ {d : Deed} {n : String} {c : CellId}, d ∈ ds → d.Uses f n c → w.store.cells.size ≤ c
  /-- What a cell holds is changed by a task that was led to it as that of a variable, and all other variables hold what
  they held. -/
  changed : ∀ {earlier later : List Deed} {who : TaskId} {w : World} {r : Request} {x : r.Response} {w' : World}
    {c : CellId}, ds = earlier ++ .answered who w r x w' :: later → r.ChangesCell c →
    ∃ g n, (∃ d ∈ earlier, ∃ f, d.Aims who f g n c) ∧ ∀ f' n', ¬(f' = g ∧ n' = n) →
    w'.store.getVar? f' n' = w.store.getVar? f' n'
  /-- If it is a variable of a call, its parameters among them, then all cells that were there at the call hold what
  they held. -/
  passed : ∀ {caller : TaskId} {w₀ : World} {home : Option FrameId} {vars : List (String × Value)}
    {imports : List String} {f : FrameId}
    {w₁ : World} {earlier later : List Deed} {who : TaskId} {w : World} {r : Request} {x : r.Response} {w' : World}
    {d : Deed} {n : String} {c : CellId},
    .answered caller w₀ (.activate home vars imports) f w₁ ∈ ds → ds = earlier ++ .answered who w r x w' :: later →
    r.ChangesCell c → d ∈ ds → d.Uses f n c → ∀ c', c' < w₀.store.cells.size → w'.store.get c' = w.store.get c'

/-- Variables that are set have cells. -/
theorem Store.lookup?_setVars {f : FrameId} {v : String × Value} :
    (vars : List (String × Value)) → ∀ {s : Store}, f < s.frames.size →
    v ∈ vars → ∃ c, (vars.foldl (fun (store : Store) v => store.setVar f v.1 v.2) s).lookup? f v.1 = some c
  | u :: vars, s, hf, hv => by
    have hf' : f < (s.setVar f u.1 u.2).frames.size := Nat.lt_of_lt_of_le hf (Grows.setVar hf u.1 u.2).frames
    rcases List.mem_cons.1 hv with rfl | hv
    · exact ⟨_, (Grows.setVars vars hf').kept (s.lookup?_ensure_self hf v.1)⟩
    · exact lookup?_setVars vars hf' hv

/-- In every history, variables are apart: whatever programs run, and however closures, namespaces, recursion, temporary
assignments and deletion pass cells around. -/
theorem History.separate {ds : List Deed} {p : Pool} (h : History Made ds p) : Separate ds p := by
  obtain ⟨G, hG, hS⟩ := h.fits_keeping True (fun _ _ hv _ => hv) Layout.Settled.create fun hg hS => hS.grown hg
  have hseen := @Layout.Settled.slot_of_seen G ds p hS hG.world.store
  have hborn : ∀ {who w home vars imports f w'}, .answered who w (.activate home vars imports) f w' ∈ ds →
      ∀ {d n c}, d ∈ ds → d.Uses f n c → w.store.cells.size ≤ c := by
    intro who w home vars imports f w' hd d n c hd' hu
    exact hS.born hd (hG.uses trivial d hd' f n c hu)
  have hperform : ∀ {earlier later who w r x w'}, ds = earlier ++ .answered who w r x w' :: later →
    (w.perform who r).2 = w' := by
    rintro earlier later who w r x w' rfl
    obtain ⟨-, -, -, -, hx⟩ := h.asked
    exact congrArg Prod.snd hx
  refine ⟨fun hs hs' hc hc' => ?_, fun {d g n c s f n'} hd hu hs hc => ?_, fun {who w home vars imports f w'} hd => ?_,
    fun {earlier later who w r x w' c} hds hr => ?_, fun {_ _ _ _ _ _ _ _ _ who w r _ _ d n c} hd hds hr hd' hu c' hc' => ?_⟩
  · cases (hseen hs hc).symm.trans (hseen hs' hc')
    exact ⟨rfl, rfl⟩
  · cases (hseen hs hc).symm.trans (hG.uses trivial d hd g n c hu)
    exact ⟨rfl, rfl⟩
  · obtain ⟨hnew, hhome⟩ := h.lexical.2.2.fresh hd
    refine ⟨hnew, hhome, fun v hv => ?_, fun hs hc => hS.born hd (hseen hs hc), hborn hd⟩
    obtain ⟨earlier, later, hds⟩ := List.append_of_mem hd
    subst hds
    obtain ⟨-, -, -, -, hx⟩ := h.asked
    cases hx
    have hframe : w.store.frames.size < (w.store.newFrame home).2.frames.size := by simp [Store.newFrame]
    exact Store.lookup?_setVars vars hframe hv
  · obtain ⟨hframes, hcells⟩ := hr.perform w who
    rw [hperform hds] at hframes hcells
    subst hds
    obtain ⟨d, hd, hleads⟩ := h.changes_leads hr
    obtain ⟨before, between, rfl⟩ := List.append_of_mem hd
    rw [List.append_assoc] at h
    obtain ⟨f, g, n, haims, -⟩ := h.aims hleads
    refine ⟨g, n, ⟨d, hd, f, haims⟩, fun f' n' hne => Store.getVar?_congr hframes hcells fun hc => hne ?_⟩
    have hslot := hG.places trivial d (List.mem_append_left _ hd) g n c haims.places
    cases (hseen (.before (List.mem_append_right _ List.mem_cons_self)) hc).symm.trans hslot
    exact ⟨rfl, rfl⟩
  · rw [← hperform hds]
    exact (hr.perform w who).2 c' (Nat.ne_of_lt (Nat.lt_of_lt_of_le hc' (hborn hd hd' hu)))

/-- The program `x = kept; f = { |p| p = changed }; $f $x; put $x`. -/
def passing : List Source.Body :=
  [Sample.assign "x" (.bare "kept"),
    Sample.assign "f" (.lambda [⟨"p", false⟩] (Sample.chunk [Sample.assign "p" (.bare "changed")])),
    Sample.command (Sample.value "f") [Sample.value "x"], Sample.command (.bare "put") [Sample.value "x"]]

set_option maxRecDepth 2000 in
/-- A function assigns to its parameter, and the variable of its caller stays. -/
theorem History.separate_passing : ∃ ds, History Made ds ⟨[], (Sample.run Sample.machine passing).2⟩ ∧
    Separate ds ⟨[], (Sample.run Sample.machine passing).2⟩ ∧ Sample.texts (Sample.run Sample.machine passing).1 =
    [some "kept"] := by
  obtain ⟨ds, h⟩ := Sample.go (Sample.start Made) passing
  exact ⟨[] ++ ds, h, h.separate, by cbv⟩

end DualShell
