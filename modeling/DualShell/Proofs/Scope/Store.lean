import DualShell.Proofs.Machine.Answers
import DualShell.Proofs.Machine.Frames
import DualShell.Proofs.Scope.Layout

/-!
# Machines that fit a layout

A store fits a layout if the layout tells the homes of its frames, if each cell found under a name of a frame was made
for it, and if no cell is lost but under names that were dropped (`Store.Fits`). A machine keeps fitting a layout that
grows with it: to every request that the contract of `layout` allows, it gives an answer that the contract promises
(`World.Fits.perform`).
-/

namespace DualShell

/-! ## Stores -/

/-- The layout tells where the cells of the store live, except for names of frames that are gone. -/
structure Store.Fits (G : Layout) (gone : FrameId → String → Prop) (s : Store) : Prop where
  home : ∀ f, G.home f = (s.frames[f]?).map (·.home)
  slot : ∀ {f n c}, s.lookup? f n = some c → G.slot c = some (f, n)
  binds : ∀ {f n c}, s.lookup? f n = some c → G.binds f n
  frames : ∀ {f n}, G.binds f n → f < s.frames.size
  cells : ∀ {c p}, G.slot c = some p → c < s.cells.size
  kept : ∀ {c f n}, G.slot c = some (f, n) → gone f n ∨ s.lookup? f n = some c

namespace Layout

/-- The layout in which a cell was made for a name of a frame. -/
def place (G : Layout) (c : CellId) (f : FrameId) (name : String) : Layout :=
  { G with slot := fun c' => if c' = c then some (f, name) else G.slot c' }

/-- The layout with one more frame; it may bind every name, or none yet. -/
def addFrame (G : Layout) (f : FrameId) (home : Option FrameId) (all : Prop) : Layout :=
  { G with
    home := fun f' => if f' = f then some home else G.home f'
    binds := fun f' n => G.binds f' n ∨ f' = f ∧ all }

/-- The second layout has the same frames as the first one, and they may bind the same names. -/
structure Alike (G G' : Layout) : Prop where
  home : G'.home = G.home
  binds : G'.binds = G.binds
  missing : G'.missing = G.missing

theorem Alike.refl (G : Layout) : G.Alike G := ⟨rfl, rfl, rfl⟩

theorem Alike.trans {G G' G'' : Layout} (h : G.Alike G') (h' : G'.Alike G'') : G.Alike G'' :=
  ⟨h'.home.trans h.home, h'.binds.trans h.binds, h'.missing.trans h.missing⟩

end Layout

namespace Store.Fits

variable {G : Layout} {gone : FrameId → String → Prop} {s : Store}

/-- Values are not part of the layout. -/
theorem congr {s' : Store} (h : s.Fits G gone) (hframes : s'.frames = s.frames) (hcells : s'.cells.size = s.cells.size) :
    s'.Fits G gone := by
  have hlookup : ∀ f n, s'.lookup? f n = s.lookup? f n := fun f n => by rw [lookup?_eq, lookup?_eq, hframes]
  refine ⟨fun f => hframes ▸ h.home f, fun hc => h.slot (hlookup _ _ ▸ hc), fun hc => h.binds (hlookup _ _ ▸ hc),
    fun hb => hframes ▸ h.frames hb, fun hc => hcells ▸ h.cells hc, fun hc => ?_⟩
  rw [hlookup]
  exact h.kept hc

/-- The cell of a name that a frame may bind was made for it, now or before. -/
theorem ensure (h : s.Fits G gone) {f : FrameId} {name : String} (hb : G.binds f name) :
    ∃ G', G.Le G' ∧ G.Alike G' ∧ (s.ensure f name).2.Fits G' gone ∧ G'.slot (s.ensure f name).1 = some (f, name) ∧
      (s.ensure f name).2.lookup? f name = some (s.ensure f name).1 := by
  unfold Store.ensure
  cases hc : s.lookup? f name with
  | some c => exact ⟨G, .refl G, .refl G, h, h.slot hc, hc⟩
  | none =>
    dsimp only [newCell]
    generalize hs : (⟨s.cells.push .empty, s.frames⟩ : Store) = s'
    have hlookup' : ∀ f n, s'.lookup? f n = s.lookup? f n := fun f n => by rw [← hs]; rfl
    have hf : f < s'.frames.size := by rw [← hs]; exact h.frames hb
    have hnew : G.slot s.cells.size = none := by
      cases hslot : G.slot s.cells.size with
      | none => rfl
      | some p => exact absurd (h.cells hslot) (Nat.lt_irrefl _)
    have hself : (s'.bind f name s.cells.size).lookup? f name = some s.cells.size := s'.lookup?_bind_self hf _ _
    have hother : ∀ {g n}, ¬(g = f ∧ n = name) → (s'.bind f name s.cells.size).lookup? g n = s.lookup? g n :=
      fun hne => (s'.lookup?_bind_ne hne _).trans (hlookup' _ _)
    refine ⟨G.place s.cells.size f name, ⟨fun _ _ => id, fun c p hp => ?_, fun _ _ => id, fun _ => id⟩, ⟨rfl, rfl, rfl⟩,
      ⟨fun g => ?_, fun {g n c} hg => ?_, fun {g n c} hg => ?_, fun {g n} hg => ?_, fun {c p} hp => ?_,
        fun {c g n} hp => ?_⟩,
      if_pos rfl, hself⟩
    · have hne : c ≠ s.cells.size := fun heq => by rw [heq, hnew] at hp; cases hp
      simpa [Layout.place, hne] using hp
    · rw [home_bind, ← hs]
      exact h.home g
    · by_cases hgn : g = f ∧ n = name
      · obtain ⟨rfl, rfl⟩ := hgn
        cases hself.symm.trans hg
        exact if_pos rfl
      · rw [hother hgn] at hg
        have hne : c ≠ s.cells.size := Nat.ne_of_lt (h.cells (h.slot hg))
        simpa [Layout.place, hne] using h.slot hg
    · by_cases hgn : g = f ∧ n = name
      · obtain ⟨rfl, rfl⟩ := hgn
        exact hb
      · exact h.binds (hother hgn ▸ hg)
    · simpa [Store.bind, ← hs] using h.frames hg
    · simp only [Store.bind, ← hs, Array.size_push]
      by_cases hne : c = s.cells.size
      · exact hne ▸ Nat.lt_succ_self _
      · exact Nat.lt_succ_of_lt (h.cells (p := p) (by simpa [Layout.place, hne] using hp))
    · by_cases hne : c = s.cells.size
      · subst hne
        obtain ⟨rfl, rfl⟩ : f = g ∧ name = n := by simpa [Layout.place] using hp
        exact .inr hself
      · have hp' : G.slot c = some (g, n) := by simpa [Layout.place, hne] using hp
        refine (h.kept hp').imp_right fun hg => ?_
        have hgn : ¬(g = f ∧ n = name) := by
          rintro ⟨rfl, rfl⟩
          rw [hc] at hg
          cases hg
        rw [hother hgn]
        exact hg

/-- A name is dropped. -/
theorem unbind (h : s.Fits G gone) (f : FrameId) (name : String) :
    (s.unbind f name).Fits G fun g n => gone g n ∨ g = f ∧ n = name := by
  have hsub : ∀ {g n c}, (s.unbind f name).lookup? g n = some c → ¬(g = f ∧ n = name) ∧ s.lookup? g n = some c := by
    intro g n c hg
    by_cases hgn : g = f ∧ n = name
    · obtain ⟨rfl, rfl⟩ := hgn
      rw [lookup?_unbind_self] at hg
      nomatch hg
    · exact ⟨hgn, by rwa [lookup?_unbind_ne _ hgn] at hg⟩
  refine ⟨fun g => (h.home g).trans (home_unbind s f g name).symm, fun hg => h.slot (hsub hg).2,
    fun hg => h.binds (hsub hg).2, fun hg => by simpa [Store.unbind] using h.frames hg, h.cells, fun {c g n} hp => ?_⟩
  by_cases hgn : g = f ∧ n = name
  · exact .inl (.inr hgn)
  · rw [lookup?_unbind_ne _ hgn]
    exact (h.kept hp).imp_left .inl

/-- A frame is made. -/
theorem newFrame (h : s.Fits G gone) (home : Option FrameId) (all : Prop) :
    G.Le (G.addFrame s.frames.size home all) ∧ (s.newFrame home).2.Fits (G.addFrame s.frames.size home all) gone := by
  have hnew : G.home s.frames.size = none := by rw [h.home]; simp
  refine ⟨⟨fun f home' hf => ?_, fun _ _ => id, fun _ _ => .inl, fun _ => id⟩,
    fun f => ?_, fun hg => h.slot (s.lookup?_newFrame _ _ _ ▸ hg), fun hg => .inl (h.binds (s.lookup?_newFrame _ _ _ ▸ hg)),
    fun {f n} hg => ?_, h.cells, fun hp => ?_⟩
  · have hne : f ≠ s.frames.size := fun heq => by rw [heq, hnew] at hf; nomatch hf
    simpa [Layout.addFrame, hne] using hf
  · simp only [Layout.addFrame, Store.newFrame, Array.getElem?_push]
    split
    · rfl
    · exact h.home f
  · simp only [Store.newFrame, Array.size_push]
    rcases hg with hg | ⟨rfl, -⟩
    · exact Nat.lt_succ_of_lt (h.frames hg)
    · exact Nat.lt_succ_self _
  · rw [lookup?_newFrame]
    exact h.kept hp

/-- A variable of a frame that may bind its name gets a value. -/
theorem setVar (h : s.Fits G gone) {f : FrameId} {name : String} (hb : G.binds f name) (v : Value) :
    ∃ G', G.Le G' ∧ G.Alike G' ∧ (s.setVar f name v).Fits G' gone := by
  obtain ⟨G', hle, halike, hfits, -⟩ := h.ensure hb
  exact ⟨G', hle, halike, hfits.congr rfl (by simp [Store.setVar, Store.set])⟩

/-- Variables that are bound may be set one after another. -/
theorem setVars {f : FrameId} : (vars : List (String × Value)) → ∀ {G : Layout} {s : Store}, s.Fits G gone →
    (∀ name, G.binds f name) →
    ∃ G', G.Le G' ∧ G.Alike G' ∧ (vars.foldl (fun (store : Store) v => store.setVar f v.1 v.2) s).Fits G' gone
  | [], G, s, h, _ => ⟨G, .refl G, .refl G, h⟩
  | v :: vars, G, s, h, hb => by
    obtain ⟨G', hle, halike, h'⟩ := h.setVar (hb v.1) v.2
    obtain ⟨G'', hle', halike', h''⟩ := setVars vars h' fun name => halike.binds ▸ hb name
    exact ⟨G'', hle.trans hle', halike.trans halike', h''⟩

end Store.Fits

/-! ## Machines -/

/-- The machine fits the layout, and so does the work that is to be started. -/
structure World.Fits (closed : Prop) (G : Layout) (gone : FrameId → String → Prop) (w : World) : Prop where
  store : w.store.Fits G gone
  sound : w.Sound (G.quality closed)
  spawned : ∀ s ∈ w.spawned, s.2.Fits closed G

/-- A lookup of a member that is not there. -/
def Request.Misses : (r : Request) → r.Response → String → Prop
  | .member _ qualifier name, x, n => x = (none : Option CellId) ∧ n = qualifier ++ name
  | _, _, _ => False

/-- What an answer adds to a layout: nothing to the frames that were there. -/
structure Layout.Adds (G G' : Layout) (w : World) (r : Request) (x : r.Response) : Prop where
  binds : ∀ f n, f < w.store.frames.size → G'.binds f n → G.binds f n
  missing : ∀ n, G'.missing n → G.missing n ∨ r.Misses x n

namespace World.Fits

variable {closed : Prop} {G : Layout} {gone : FrameId → String → Prop} {w : World}

/-- The layout is about no more than two machines that are alike have in common. -/
theorem congr {w' : World} (h : w.Fits closed G gone) (halike : w.Alike w') (hsound : w'.Sound (G.quality closed)) :
    w'.Fits closed G gone :=
  ⟨h.store.congr halike.frames halike.cells, hsound, fun s hs => h.spawned s (halike.spawned ▸ hs)⟩

/-- More names may be said to be gone. -/
theorem weaken {gone' : FrameId → String → Prop} (h : w.Fits closed G gone) (hg : ∀ f n, gone f n → gone' f n) :
    w.Fits closed G gone' :=
  ⟨⟨h.store.home, h.store.slot, h.store.binds, h.store.frames, h.store.cells, fun hc => (h.store.kept hc).imp_left (hg _ _)⟩,
    h.sound, h.spawned⟩

/-- Requests that the contract allows carry sound values. -/
theorem sound_of_needs {r : Request} (hn : G.Needs closed r) : r.Sound (G.quality closed) := by
  cases r <;> first | exact hn | trivial

/-- Requests that leave frames alone say nothing of a layout. -/
theorem says_of_leavesFrames {r : Request} (hr : r.LeavesFrames) (G : Layout) (x : r.Response) : G.Says r x := by
  cases r <;> trivial

/-- The machine answers as the contract promises, and fits the layout that comes of it. -/
theorem perform (h : w.Fits closed G gone) (who : TaskId) {r : Request} (hn : G.Needs closed r) {x : r.Response} {w' : World}
    (hx : w.perform who r = (some x, w')) : ∃ G', (layout closed).Tells G r x G' ∧ G.Adds G' w r x ∧ w'.tops = w.tops ∧
      w'.Fits closed G' fun f n => gone f n ∨ r = .unbind f n := by
  have hsound := World.Sound.perform h.sound who (sound_of_needs hn)
  rw [Answer.Sound, hx] at hsound
  have hanswered := hsound.2 x rfl
  have same : G.Adds G w r x := ⟨fun _ _ _ => id, fun _ => .inl⟩
  have hspawned : ∀ {G' : Layout}, G.Le G' → ∀ s ∈ w.spawned, s.2.Fits closed G' := fun hle s hs => (h.spawned s hs).mono hle
  by_cases hleaves : r.LeavesFrames
  · have halike := World.Alike.perform w who hleaves
    rw [hx] at halike
    exact ⟨G, ⟨.refl G, hanswered, says_of_leavesFrames hleaves G x⟩, same, halike.tops,
      (h.congr halike hsound.1).weaken fun _ _ => .inl⟩
  · cases r with
    | cell f name access =>
      obtain ⟨G', hle, hcongr, hstore, hslot, -⟩ := h.store.ensure (show G.binds f name from hn)
      cases hx
      refine ⟨G', ⟨hle, trivial, hslot⟩, ⟨fun _ _ _ hb => hcongr.binds ▸ hb, fun _ hm => .inl (hcongr.missing ▸ hm)⟩,
        rfl, ?_⟩
      exact World.Fits.weaken ⟨hstore, hsound.1.mono hle.quality, hspawned hle⟩ fun _ _ => .inl
    | unbind f name =>
      cases hx
      refine ⟨G, ⟨.refl G, trivial, trivial⟩, same, rfl, ?_⟩
      refine World.Fits.weaken ⟨h.store.unbind f name, hsound.1, h.spawned⟩ fun g n => Or.imp_right ?_
      rintro ⟨rfl, rfl⟩
      rfl
    | taken f captures name level access =>
      cases hx
      exact ⟨G, ⟨.refl G, trivial, rfl⟩, same, rfl, h.weaken fun _ _ => .inl⟩
    | fixed name =>
      cases hx
      exact ⟨G, ⟨.refl G, hanswered, rfl⟩, same, rfl, h.weaken fun _ _ => .inl⟩
    | member ns qualifier name =>
      cases hx
      have hle : G.Le
          { G with missing := fun n => G.missing n ∨ Request.Misses (.member ns qualifier name) (ns.get? name) n } :=
        ⟨fun _ _ => id, fun _ _ => id, fun _ _ => id, fun _ => .inl⟩
      refine ⟨_, ⟨hle, trivial, fun hnone => .inr ⟨hnone, rfl⟩⟩, ⟨fun _ _ _ => id, fun _ => id⟩, rfl, ?_⟩
      exact World.Fits.weaken ⟨⟨h.store.home, h.store.slot, h.store.binds, h.store.frames, h.store.cells, h.store.kept⟩,
        hsound.1.mono hle.quality, hspawned hle⟩ fun _ _ => .inl
    | activate home vars =>
      obtain ⟨hle, hframe⟩ := h.store.newFrame home True
      have hnew : ∀ name, (G.addFrame w.store.frames.size home True).binds w.store.frames.size name :=
        fun _ => .inr ⟨rfl, trivial⟩
      obtain ⟨G', hle', hcongr, hstore⟩ := Store.Fits.setVars vars hframe hnew
      cases hx
      refine ⟨G', ⟨hle.trans hle', trivial, ?_, fun name => hcongr.binds ▸ hnew name⟩,
        ⟨fun f n hf hb => ?_, fun n hm => ?_⟩, rfl, ?_⟩
      · rw [hcongr.home]
        exact if_pos rfl
      · rw [hcongr.binds] at hb
        exact hb.resolve_right fun heq => absurd heq.1 (Nat.ne_of_lt hf)
      · rw [hcongr.missing] at hm
        exact .inl hm
      · exact World.Fits.weaken ⟨hstore, hsound.1.mono (hle.trans hle').quality, hspawned (hle.trans hle')⟩ fun _ _ => .inl
    | startJob p ctx =>
      have halike := World.Quiet.setJobs w ctx.kernel ((w.jobs ctx.kernel).spawn p.text).2
      cases hx
      refine ⟨G, ⟨.refl G, trivial, trivial⟩, same, halike.tops, ?_⟩
      refine World.Fits.weaken ⟨h.store, hsound.1, fun s hs => ?_⟩ fun _ _ => .inl
      rcases List.mem_append.1 hs with hs | hs
      · exact h.spawned s hs
      · cases List.mem_singleton.1 hs
        exact hn
    | spawn work =>
      cases hx
      refine ⟨G, ⟨.refl G, trivial, trivial⟩, same, rfl, ?_⟩
      refine World.Fits.weaken ⟨h.store, hsound.1, fun s hs => ?_⟩ fun _ _ => .inl
      rcases List.mem_append.1 hs with hs | hs
      · exact h.spawned s hs
      · cases List.mem_singleton.1 hs
        exact hn
    | _ => exact absurd trivial hleaves

/-- Whatever is asked for in keeping with the contract, new cells are found under names, and nothing is taken away. -/
theorem extends_perform (h : w.Fits closed G gone) (who : TaskId) {r : Request} (hn : G.Needs closed r)
    {x : Option r.Response} {w' : World} (hx : w.perform who r = (x, w')) : w.store.Extends w'.store := by
  rw [show w' = (w.perform who r).2 from congrArg Prod.snd hx.symm]
  by_cases hleaves : r.LeavesFrames
  · exact (World.Alike.perform w who hleaves).extends
  · cases r with
    | cell f name access => exact (Store.Grows.ensure (h.store.frames hn) name).toExtends
    | unbind f name => exact .of_eq (by simp [World.perform, Store.unbind]) rfl
    | activate home vars =>
      have hframe : w.store.frames.size < (w.store.newFrame home).2.frames.size := by simp [Store.newFrame]
      exact ((Store.Grows.newFrame w.store home).trans (.setVars vars hframe)).toExtends
    | taken | fixed | member | startJob | spawn => exact .of_eq rfl rfl
    | _ => exact absurd trivial hleaves

/-- A request that has to wait changes nothing that the layout is about. -/
theorem wait (h : w.Fits closed G gone) (who : TaskId) {r : Request} (hn : G.Needs closed r) {w' : World}
    (hx : w.perform who r = (none, w')) : w'.Fits closed G gone ∧ w'.tops = w.tops := by
  have hsound := (World.Sound.perform h.sound who (sound_of_needs hn)).1
  have hleaves : r.LeavesFrames := by
    cases r with
    | cell | unbind | taken | fixed | member | activate | startJob | spawn => nomatch hx
    | _ => trivial
  have halike := World.Alike.perform w who hleaves
  rw [hx] at hsound halike
  exact ⟨h.congr halike hsound, halike.tops⟩

end World.Fits

end DualShell
