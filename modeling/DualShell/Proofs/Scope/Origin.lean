import Mathlib
import DualShell.Proofs.Scope.History

/-!
# Where frames and values come from

Only five requests touch the variables of a machine: a cell is found or made, a name is dropped, a frame is made, and
what a cell holds is replaced or changed (`World.store_perform`). So what a cell holds stays until that very cell is
stored to or edited (`World.get_perform`), no frame holds a name twice, and a frame with a home is that of a call that
was made (`History.traced`): a frame some number of homes out from another is one within which the other was called
(`Store.Traced.within`).
-/

namespace DualShell

/-! ## Requests that touch variables -/

/-- Requests that find or make cells and frames, drop names, or replace what a cell holds. -/
def Request.TouchesStore : Request → Prop
  | .cell .. | .unbind .. | .activate .. | .store .. | .edit .. => True
  | _ => False

/-- A request that changes what a cell holds. -/
def Request.ChangesCell (c : CellId) : Request → Prop
  | .store c' _ => c' = c
  | .edit c' _ => c' = c
  | _ => False

namespace World

/-- All other requests leave the variables alone. -/
theorem store_perform (w : World) (who : TaskId) {r : Request} (hr : ¬r.TouchesStore) :
    (w.perform who r).2.store = w.store := by
  by_cases hstream : r.IsStream
  · exact (Streams.perform w who hstream).store
  cases r with
  | cell | unbind | activate | store | edit => exact absurd trivial hr
  | claimModule key place =>
    simp only [perform]
    split <;> rfl
  | join id =>
    simp only [perform]
    split
    · rfl
    · rename_i heq
      unfold World.takeEnded at heq
      split at heq
      · cases heq
        rfl
      · cases heq
  | _ => first | rfl | exact absurd trivial hstream

end World

/-! ## What cells hold -/

namespace Store

variable (s : Store)

/-- Other cells hold what they held. -/
theorem get_set_ne {c c' : CellId} (h : c' ≠ c) (v : Value) : (s.set c' v).get c = s.get c := by
  simp [get, set, Array.getD_eq_getD_getElem?, Array.getElem?_setIfInBounds_ne h]

/-- To ask for a cell changes no other. -/
theorem get_ensure {c : CellId} (hc : c < s.cells.size) (f : FrameId) (name : String) :
    (s.ensure f name).2.get c = s.get c := by
  unfold ensure
  split
  · rfl
  · simp [newCell, bind, get, Array.getD_eq_getD_getElem?, Array.getElem?_push_lt hc, Array.getElem?_eq_getElem hc]

/-- To ask for a cell takes none away. -/
theorem cells_le_ensure (f : FrameId) (name : String) : s.cells.size ≤ (s.ensure f name).2.cells.size := by
  unfold ensure
  split
  · exact Nat.le_refl _
  · simp [newCell, bind]

/-- A name found after a cell was made for one was there before, or is that one. -/
theorem lookup?_of_ensure {f g : FrameId} {name n : String} {c : CellId} (h : (s.ensure f name).2.lookup? g n = some c) :
    s.lookup? g n = some c ∨ c = (s.ensure f name).1 := by
  cases hname : s.lookup? f name with
  | some c' =>
    rw [s.ensure_of_lookup? hname] at h
    exact .inl h
  | none =>
    unfold ensure at h ⊢
    rw [hname] at h ⊢
    dsimp only at h ⊢
    by_cases hgn : g = f ∧ n = name
    · obtain ⟨rfl, rfl⟩ := hgn
      rw [lookup?_eq] at h
      cases hf : s.frames[g]? with
      | none => simp [newCell, bind, Array.getElem?_modify, hf] at h
      | some frame =>
        have hlt : g < s.frames.size := (Array.getElem?_eq_some_iff.1 hf).1
        rw [← lookup?_eq] at h
        exact .inr (Option.some.inj (h.symm.trans (lookup?_bind_self (s.newCell .empty).2 hlt n _)))
    · rw [lookup?_bind_ne _ hgn] at h
      exact .inl h

/-- The cell of a name is an old one only if the name had it. -/
theorem ensure_ne {f : FrameId} {name : String} {c : CellId} (hc : c < s.cells.size) (hne : s.lookup? f name ≠ some c) :
    (s.ensure f name).1 ≠ c := by
  unfold ensure
  split
  · rename_i c' hc'
    rintro rfl
    exact hne hc'
  · exact Nat.ne_of_gt hc

variable {s}

/-- Giving the names of a frame values leaves a cell alone that is none of the frame. -/
theorem get_setVars {f : FrameId} {c : CellId} : (vars : List (String × Value)) → ∀ {s : Store}, c < s.cells.size →
    (∀ name, s.lookup? f name ≠ some c) → (vars.foldl (fun (store : Store) v => store.setVar f v.1 v.2) s).get c = s.get c
  | [], _, _, _ => rfl
  | (name, v) :: vars, s, hc, hother => by
    have hne : (s.ensure f name).1 ≠ c := s.ensure_ne hc (hother name)
    have hset : (s.setVar f name v).get c = s.get c := (get_set_ne _ hne v).trans (s.get_ensure hc f name)
    rw [List.foldl_cons, get_setVars vars, hset]
    · simpa [setVar, set] using Nat.lt_of_lt_of_le hc (s.cells_le_ensure f name)
    · intro n hn
      exact (s.lookup?_of_ensure hn).elim (hother n) fun heq => hne heq.symm

end Store

/-- A cell that was there holds what it held, until a request about that very cell. -/
theorem World.get_perform {w : World} {who : TaskId} {r : Request} {c : CellId} (hc : c < w.store.cells.size)
    (hr : ¬r.ChangesCell c) : (w.perform who r).2.store.get c = w.store.get c := by
  cases r with
  | cell f name => exact w.store.get_ensure hc f name
  | store c' v => exact Store.get_set_ne _ hr v
  | edit c' change =>
    simp only [World.perform, Store.update]
    split
    · exact Store.get_set_ne _ hr _
    · rfl
  | activate home vars imports =>
    refine Store.get_setVars vars hc fun name => ?_
    simp [Store.lookup?_eq, Frame.get?]
  | unbind => rfl
  | _ => exact congrArg (Store.get · c) (World.store_perform w who id)

/-! ## What frames hold -/

namespace Frame

variable {f : Frame}

/-- No name has two cells. -/
def Tidy (f : Frame) : Prop := (f.vars.map (·.1)).Nodup

/-- A frame stays tidy when a name is taken away. -/
theorem Tidy.remove (h : f.Tidy) (name : String) : (f.remove name).Tidy := h.sublist (List.filter_sublist.map _)

/-- A frame stays tidy when a name is inserted. -/
theorem Tidy.insert (h : f.Tidy) (name : String) (c : CellId) : (f.insert name c).Tidy := by
  have hrest : ((f.vars.filter (·.1 != name)).map (·.1)).Nodup := h.remove name
  simp only [Tidy, Frame.insert, List.map_append, List.map_cons, List.map_nil]
  refine List.nodup_append.2 ⟨hrest, by simp, fun n hn n' hn' heq => ?_⟩
  obtain ⟨v, hv, rfl⟩ := List.mem_map.1 hn
  simp [heq.trans (List.mem_singleton.1 hn')] at hv

/-- The cell that a namespace has under a name is the one of the frame that it was made of. -/
theorem Tidy.get?_of_mem_sorted (h : f.Tidy) {name : String} {c : CellId} (hm : (name, c) ∈ f.sorted) :
    f.get? name = some c := by
  obtain ⟨vars, home⟩ := f
  have hmem : (name, c) ∈ vars := Named.mem_of_mem_ofList hm
  clear hm
  unfold Tidy at h
  unfold get?
  dsimp only at h ⊢
  induction vars with
  | nil => nomatch hmem
  | cons v vars ih =>
    simp only [List.map_cons, List.nodup_cons] at h
    rcases List.mem_cons.1 hmem with rfl | hmem
    · simp
    · have hne : v.1 ≠ name := fun heq => h.1 (heq ▸ List.mem_map_of_mem hmem)
      simpa [hne] using ih h.2 hmem

end Frame

/-! ## Where frames come from -/

/-- Of no frame is a name held twice, and a frame with a home is that of a call of a closure that was made there. -/
structure Store.Traced (ds : List Deed) (s : Store) : Prop where
  tidy : ∀ (f : FrameId) frame, s.frames[f]? = some frame → frame.Tidy
  called : ∀ (f : FrameId) home, (s.frames[f]?).map (·.home) = some (some home) →
    ∃ who w vars imports w', .answered who w (.activate (some home) vars imports) f w' ∈ ds

namespace Store.Traced

variable {ds : List Deed} {s : Store}

/-- Where frames come from is said of the frames only. -/
theorem congr (h : s.Traced ds) {s' : Store} (hframes : s'.frames = s.frames) : s'.Traced ds :=
  ⟨hframes ▸ h.tidy, hframes ▸ h.called⟩

/-- Where frames come from is told by the deeds, and by more of them. -/
theorem later (h : s.Traced ds) (ds' : List Deed) : s.Traced (ds ++ ds') where
  tidy := h.tidy
  called f home hf := by
    obtain ⟨who, w, vars, imports, w', hd⟩ := h.called f home hf
    exact ⟨who, w, vars, imports, w', List.mem_append_left _ hd⟩

/-- Names of one frame are bound or dropped. -/
theorem modify (h : s.Traced ds) (f : FrameId) {change : Frame → Frame} (htidy : ∀ frame, frame.Tidy → (change frame).Tidy)
    (hhome : ∀ frame, (change frame).home = frame.home) (cells : Array Value) :
    Store.Traced ds ⟨cells, s.frames.modify f change⟩ := by
  refine ⟨fun g frame hg => ?_, fun g home hg => h.called g home ?_⟩
  · simp only [Array.getElem?_modify] at hg
    split at hg
    · obtain ⟨old, hold, rfl⟩ := Option.map_eq_some_iff.1 hg
      exact htidy old (h.tidy g old hold)
    · exact h.tidy g frame hg
  · simp only [Array.getElem?_modify] at hg
    split at hg
    · simpa [Option.map_map, Function.comp_def, hhome] using hg
    · exact hg

/-- To ask for a cell makes no frame. -/
theorem ensure (h : s.Traced ds) (f : FrameId) (name : String) : (s.ensure f name).2.Traced ds := by
  unfold Store.ensure
  split
  · exact h
  · exact h.modify f (fun _ ht => ht.insert name _) (fun _ => rfl) _

theorem setVar (h : s.Traced ds) (f : FrameId) (name : String) (v : Value) : (s.setVar f name v).Traced ds :=
  (h.ensure f name).congr rfl

/-- To set variables makes no frame. -/
theorem setVars {f : FrameId} : (vars : List (String × Value)) → ∀ {s : Store}, s.Traced ds →
    (vars.foldl (fun (store : Store) v => store.setVar f v.1 v.2) s).Traced ds
  | [], _, h => h
  | (name, v) :: vars, _, h => setVars vars (h.setVar f name v)

/-- A frame is made, for a call if it has a home. -/
theorem newFrame (h : s.Traced ds) (home : Option FrameId) (hcalled : ∀ f, home = some f →
    ∃ who w vars imports w', .answered who w (.activate (some f) vars imports) s.frames.size w' ∈ ds) :
    (s.newFrame home).2.Traced ds := by
  refine ⟨fun g frame hg => ?_, fun g home' hg => ?_⟩
  · simp only [Store.newFrame, Array.getElem?_push] at hg
    split at hg
    · cases hg
      exact List.nodup_nil
    · exact h.tidy g frame hg
  · simp only [Store.newFrame, Array.getElem?_push] at hg
    split at hg
    · rename_i heq
      subst heq
      exact hcalled home' (Option.some.inj hg)
    · exact h.called g home' hg

/-- A request is answered. -/
theorem perform {w w' : World} (h : w.store.Traced ds) {who : TaskId} {r : Request} {x : r.Response}
    (hx : w.perform who r = (some x, w')) : w'.store.Traced (ds ++ [.answered who w r x w']) := by
  have h' := h.later [.answered who w r x w']
  have hw' : w' = (w.perform who r).2 := congrArg Prod.snd hx.symm
  have hd : .answered who w r x w' ∈ ds ++ [.answered who w r x w'] := by simp
  generalize ds ++ [.answered who w r x w'] = ds' at h' hd
  cases r with
  | cell f name access => exact hw' ▸ h'.ensure f name
  | unbind f name => exact hw' ▸ h'.modify f (fun _ ht => ht.remove name) (fun _ => rfl) _
  | store c v => exact h'.congr (congrArg (fun w => w.store.frames) hw')
  | edit c change =>
    refine h'.congr ?_
    rw [hw']
    simp only [World.perform, Store.update]
    split <;> rfl
  | activate home vars imports =>
    have hf : x = w.store.frames.size := (Option.some.inj (congrArg Prod.fst hx)).symm
    have hmade : (w.store.newFrame home).2.Traced ds' :=
      h'.newFrame home fun f hhome => ⟨who, w, vars, imports, w', by subst hhome hf; exact hd⟩
    rw [hw']
    exact setVars vars hmade
  | _ => exact h'.congr (congrArg Store.frames (hw' ▸ World.store_perform w who id))

end Store.Traced

/-- The frames of all histories are traced. -/
theorem History.traced {Supplied : List Deed → Value → Prop} {ds : List Deed} {p : Pool} (h : History Supplied ds p) :
    p.world.store.Traced ds := by
  induction h with
  | create files source =>
    exact ⟨fun f frame hf => by simp [World.create, Store.empty] at hf, fun f home hf =>
      by simp [World.create, Store.empty] at hf⟩
  | step h hs ih =>
    cases hs with
    | answer hx => exact ih.perform hx
    | @wait before who r next after w w' hx =>
      rw [List.append_nil]
      refine ih.congr (congrArg Store.frames ?_)
      rw [show w' = (w.perform who r).2 from congrArg Prod.snd hx.symm]
      refine World.store_perform w who fun hr => ?_
      cases r with
      | cell | unbind | activate | store | edit => cases hx
      | _ => exact hr
    | finish | giveUp | takeUp => exact ih.later _
  | addKernel config env h ih => exact ih.newFrame none fun _ heq => by cases heq
  | compile h hk hcompile ih =>
    obtain ⟨scope, -, rfl⟩ := compile_block hcompile
    exact ih.later _
  | launch l input h hblock hk hvalues hlaunch ih =>
    cases hlaunch
    exact ih
  | setVar name h hk hv ih =>
    unfold World.setVar
    rw [hk]
    exact (ih.setVar _ name _).later _
  | handOut h hv ih => exact ih.later _
  | @takeCollected ds tasks w c h ih => exact ih.congr (World.Quiet.takeCollected w c).frames
  | takeEnded h ht ih => exact ih.congr (World.Quiet.takeEnded ht).frames
  | setEnv | identify => assumption
  | clearModules h ih => exact ih.later _

/-- The frame itself, and those of calls of closures that were made within. -/
inductive Within (ds : List Deed) (m : FrameId) : FrameId → Prop
  | self : Within ds m m
  | call {who w home vars imports f w'} (hd : .answered who w (.activate (some home) vars imports) f w' ∈ ds)
      (h : Within ds m home) : Within ds m f

/-- A frame is within all those around it. -/
theorem Store.Traced.within {ds : List Deed} {s : Store} (h : s.Traced ds) {m : FrameId} : (level : Nat) → ∀ {f : FrameId},
    s.ancestor? f level = some m → Within ds m f
  | 0, _, hm => Option.some.inj hm ▸ .self
  | level + 1, f, hm => by
    unfold Store.ancestor? at hm
    split at hm
    · rename_i home hhome
      obtain ⟨who, w, vars, imports, w', hd⟩ := h.called f home hhome
      exact .call hd (h.within level hm)
    · nomatch hm

end DualShell
