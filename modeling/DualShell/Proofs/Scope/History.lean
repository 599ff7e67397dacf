import DualShell.Proofs.Machine.History
import DualShell.Proofs.Scope.Run
import DualShell.Proofs.Scope.Store

/-!
# Histories fit a layout

After every history there is a layout that all of it fits: the machine, the tasks that still run, the top levels of the
kernels and the programs that resolved on them (`History.fits`). A name that a top level may bind is one that programs
may refer to, unless a program that deletes it has made the top level forget it (`Forgotten`).
-/

namespace DualShell

/-! ## What deeds tell -/

/-- A name of a frame was dropped. -/
def Unbound (ds : List Deed) (f : FrameId) (n : String) : Prop := ∃ who w x w', .answered who w (.unbind f n) x w' ∈ ds

/-- A member of a namespace was looked for in vain. -/
def Missed (ds : List Deed) (n : String) : Prop := ∃ who w r x w', .answered who w r x w' ∈ ds ∧ r.Misses x n

/-- The frame a number of homes out. -/
def Store.ancestor? (s : Store) (f : FrameId) : Nat → Option FrameId
  | 0 => some f
  | level + 1 =>
    match (s.frames[f]?).map (·.home) with
    | some (some h) => s.ancestor? h level
    | _ => none

/-- Frames stand in a store as they stand in a layout that it fits. -/
theorem Store.Fits.ancestor? {G : Layout} {gone : FrameId → String → Prop} {s : Store} (h : s.Fits G gone) (f : FrameId)
    (level : Nat) : G.ancestor? f level = s.ancestor? f level := by
  induction level generalizing f with
  | zero => rfl
  | succ level ih =>
    simp only [Layout.ancestor?, Store.ancestor?, h.home, ih]
    generalize (s.frames[f]?).map (·.home) = home
    rcases home with _ | _ | g <;> rfl

/-- Code was led to a cell as the one of a name of a frame: a frame of its own, or one so many homes out. -/
def Deed.Uses (g : FrameId) (n : String) (c : CellId) : Deed → Prop
  | .answered _ _ (.cell f name _) x _ => x = c ∧ f = g ∧ name = n
  | .answered _ w (.taken f _ name level _) x _ => x = some c ∧ w.store.ancestor? f level = some g ∧ name = n
  | _ => False

/-- A cell was told to be the one of a name of a frame: code was led to it, or the frame was made a namespace that holds
it. -/
def Deed.Places (g : FrameId) (n : String) (c : CellId) : Deed → Prop
  | .answered _ _ (.cell f name _) x _ => x = c ∧ f = g ∧ name = n
  | .answered _ w (.taken f _ name level _) x _ => x = some c ∧ w.store.ancestor? f level = some g ∧ name = n
  | .answered _ w (.freeze _ f) ns _ => f = g ∧ (n, c) ∈ ns.members ∧ w.store.lookup? g n = some c
  | _ => False

/-- A deed that uses a cell places it. -/
theorem Deed.Uses.places {d : Deed} {g : FrameId} {n : String} {c : CellId} (h : d.Uses g n c) : d.Places g n c := by
  cases d with
  | answered who w r x w' =>
    cases r with
    | cell | taken => exact h
    | _ => exact h.elim
  | _ => exact h.elim

/-- Programs of a kernel may refer to a name from then on. -/
def Deed.PutsBack (k : KernelId) (n : String) : Deed → Prop
  | .compiled k' _ names => k' = k ∧ n ∈ names
  | .assigned k' name => k' = k ∧ name = n
  | _ => False

/-- A program that deletes a name at its top level resolved on a kernel and left the name unknown there, and nothing has
put it back since. Whether the program was run, and how far, does not matter. -/
def Forgotten (ds : List Deed) (k : KernelId) (n : String) : Prop :=
  ∃ earlier block names later, ds = earlier ++ .compiled k block names :: later ∧ .drop n ∈ block.mentions ∧ n ∉ names ∧
    ∀ d ∈ later, ¬d.PutsBack k n

/-- What was unbound once stays unbound, later deeds or not. -/
theorem Unbound.later {ds : List Deed} {f : FrameId} {n : String} (d : Deed) (h : Unbound ds f n) :
    Unbound (ds ++ [d]) f n := by
  obtain ⟨who, w, x, w', hd⟩ := h
  exact ⟨who, w, x, w', List.mem_append_left _ hd⟩

/-- What was missed once was missed. -/
theorem Missed.later {ds : List Deed} {n : String} (d : Deed) (h : Missed ds n) : Missed (ds ++ [d]) n := by
  obtain ⟨who, w, r, x, w', hd, hr⟩ := h
  exact ⟨who, w, r, x, w', List.mem_append_left _ hd, hr⟩

/-- What was forgotten stays forgotten until a deed puts it back. -/
theorem Forgotten.later {ds : List Deed} {k : KernelId} {n : String} {d : Deed} (h : Forgotten ds k n)
    (hd : ¬d.PutsBack k n) : Forgotten (ds ++ [d]) k n := by
  obtain ⟨earlier, block, names, later, rfl, hdrop, hnames, hlater⟩ := h
  refine ⟨earlier, block, names, later ++ [d], by simp, hdrop, hnames, fun d' hd' => ?_⟩
  rcases List.mem_append.1 hd' with hd' | hd'
  · exact hlater d' hd'
  · cases List.mem_singleton.1 hd'
    exact hd

/-! ## Top levels -/

namespace World

variable {w : World} {k : KernelId}

/-- The top level of a kernel is its frame and its names. -/
theorem tops_of_kernel {kernel : Kernel} (hk : w.kernel? k = some kernel) :
    w.tops[k]? = some (kernel.globals, kernel.names) := by
  simp only [tops, Array.getElem?_map, show w.kernels[k]? = some kernel from hk, Option.map_some]

/-- A top level is that of a kernel. -/
theorem kernel_of_tops {top : FrameId × List String} (h : w.tops[k]? = some top) :
    ∃ kernel, w.kernel? k = some kernel ∧ top = (kernel.globals, kernel.names) := by
  simp only [tops, Array.getElem?_map, Option.map_eq_some_iff] at h
  obtain ⟨kernel, hk, rfl⟩ := h
  exact ⟨kernel, hk, rfl⟩

/-- Only the names of one top level change. -/
theorem tops_rename {kernel : Kernel} (hk : w.kernel? k = some kernel) {names : Kernel → List String} {k' : KernelId}
    {top : FrameId × List String}
    (h : (w.modifyKernel k fun kernel => { kernel with names := names kernel }).tops[k']? = some top) :
    (k' = k ∧ top = (kernel.globals, names kernel)) ∨ (k' ≠ k ∧ w.tops[k']? = some top) := by
  simp only [tops, modifyKernel, Array.getElem?_map, Array.getElem?_modify] at h ⊢
  split at h
  · rename_i hkk
    subst hkk
    rw [show w.kernels[k]? = some kernel from hk] at h
    exact .inl ⟨rfl, (Option.some.inj h).symm⟩
  · rename_i hkk
    exact .inr ⟨fun heq => hkk heq.symm, h⟩

/-- A program that resolves adds to the names of its kernel. -/
theorem compile_ok {kernel : Kernel} (hk : w.kernel? k = some kernel) {chunk : Source.Chunk} {src : String}
    {block : Code.Block} {w' : World} (h : w.compile k chunk src = (.ok block, w')) :
    ∃ after, TopLevel kernel.names after block ∧ w' = w.modifyKernel k (fun kernel => { kernel with names := after }) ∧
      w'.names k = after := by
  obtain ⟨scope, hcompile, rfl⟩ := History.compile_block h
  unfold World.names at hcompile
  rw [hk] at hcompile
  refine ⟨scope.globals, Source.Chunk.compile_topLevel hcompile, rfl, ?_⟩
  simp only [World.names, World.modifyKernel, World.kernel?, Array.getElem?_modify, show w.kernels[k]? = some kernel from hk]
  simp

/-- No top level is lost. -/
theorem tops_renamed (k : KernelId) (names : Kernel → List String) {k' : KernelId}
    {top : FrameId × List String} (h : w.tops[k']? = some top) :
    ∃ top', (w.modifyKernel k fun kernel => { kernel with names := names kernel }).tops[k']? = some top' ∧
    top'.1 = top.1 := by
  obtain ⟨kernel', hk', rfl⟩ := kernel_of_tops h
  simp only [tops, modifyKernel, Array.getElem?_map, Array.getElem?_modify, show w.kernels[k']? = some kernel' from hk']
  split
  · exact ⟨_, rfl, rfl⟩
  · exact ⟨_, rfl, rfl⟩

end World

/-! ## Layouts after histories -/

variable {closed : Prop} {G : Layout} {ds : List Deed} {tasks : List (TaskId × Task Outcome)} {w : World}

/-- A frame may bind more names. -/
def Layout.extend (G : Layout) (f : FrameId) (P : String → Prop) : Layout :=
  { G with binds := fun f' n => G.binds f' n ∨ f' = f ∧ P n }

/-- A layout extends to one with another frame. -/
theorem Layout.le_extend (G : Layout) (f : FrameId) (P : String → Prop) : G.Le (G.extend f P) :=
  ⟨fun _ _ => id, fun _ _ => id, fun _ _ => .inl, fun _ => id⟩

/-- What a request needs of a layout it has in a later one. -/
theorem Layout.Needs.mono {G' : Layout} (h : G.Le G') {r : Request} (hr : G.Needs closed r) : G'.Needs closed r := by
  cases r with
  | cell f name access => exact h.binds _ _ hr
  | taken f captures name level access => exact fun hc => ⟨(hr hc).1, h.reaches (hr hc).2⟩
  | startJob p ctx => exact Context.Fits.mono h hr
  | spawn work => exact Work.Fits.mono h hr
  | edit c change => exact Edit.Sound.mono h.quality hr
  | activate home vars => exact fun p hp => (hr p hp).mono h.quality
  | openInput data values => exact fun v hv => (hr v hv).mono h.quality
  | finishJob k id r => exact RunResult.Sound.mono h.quality hr
  | store | adopt | put => exact Value.Sound.mono h.quality hr
  | _ => exact hr

/-- What the requests of a task need stays true, and what it counts on is still told. -/
theorem Layout.Allows.mono {G' : Layout} (h : G.Le G') {t : Task Outcome} (ht : G.Allows closed t) : G'.Allows closed t := by
  cases t with
  | ret o => exact Outcome.Sound.mono h.quality ht
  | exhausted => trivial
  | request r next => exact ⟨Layout.Needs.mono h ht.1, fun x G'' hx => ht.2 x G'' ⟨h.trans hx.1, hx.2⟩⟩

/-- The machine, the tasks that run on it, its top levels, and the programs and the values that it has to do with fit
the layout. -/
structure Pool.Fits (closed : Prop) (G : Layout) (ds : List Deed) (p : Pool) : Prop where
  world : p.world.Fits closed G (Unbound ds)
  tasks : ∀ t ∈ p.tasks, G.Allows closed t.2
  tops : ∀ (k : KernelId) (top : FrameId × List String), p.world.tops[k]? = some top → G.home top.1 = some none
  distinct : ∀ (k k' : KernelId) (top top' : FrameId × List String), p.world.tops[k]? = some top →
    p.world.tops[k']? = some top' → top.1 = top'.1 → k = k'
  known : ∀ (k : KernelId) (top : FrameId × List String) n, p.world.tops[k]? = some top → G.binds top.1 n →
    n ∈ top.2 ∨ Forgotten ds k n
  compiled : ∀ k block names, .compiled k block names ∈ ds → ∃ top : FrameId × List String, p.world.tops[k]? = some top ∧
    ∀ ctx : Context, ctx.frame = top.1 → ctx.Fits closed G block.mentions
  handed : ∀ v, .handed v ∈ ds → v.Sound (G.quality closed)
  ended : ∀ who o, .ended who o ∈ ds → Outcome.Sound (G.quality closed) o
  places : closed → ∀ d ∈ ds, ∀ g n c, d.Places g n c → G.slot c = some (g, n)
  missing : ∀ n, G.missing n → Missed ds n

/-- A cell that is told to be the one of a name of a frame was made for it. -/
theorem Store.Fits.slot_of_places {gone : FrameId → String → Prop} (h : w.store.Fits G gone) (hclosed : closed)
    {who : TaskId}
    {r : Request} {x : r.Response} {w' : World} {G' : Layout} (hneeds : G.Needs closed r)
    (htells : (layout closed).Tells G r x G')
    {g : FrameId} {n : String} {c : CellId} (hu : (Deed.answered who w r x w').Places g n c) : G'.slot c = some (g, n) := by
  cases r with
  | cell f name access =>
    obtain ⟨rfl, rfl, rfl⟩ := hu
    exact htells.2.2
  | taken f captures name level access =>
    obtain ⟨hxc, hg, rfl⟩ := hu
    obtain ⟨-, c', g', hc', hg', hslot⟩ := hneeds hclosed
    have hx : x = takenCell? captures name := htells.2.2
    rw [hxc, hc'] at hx
    rw [h.ancestor?, hg] at hg'
    cases hx
    cases hg'
    exact htells.1.slot _ _ hslot
  | freeze name f => exact htells.1.slot _ _ (h.slot hu.2.2)
  | _ => exact hu.elim

namespace Pool.Fits

/-- The cell that code is led to was made for that name of that frame. -/
theorem uses {p : Pool} (h : p.Fits closed G ds) (hc : closed) (d : Deed) (hd : d ∈ ds) (g : FrameId) (n : String)
    (c : CellId) (hu : d.Uses g n c) : G.slot c = some (g, n) :=
  h.places hc d hd g n c hu.places

/-- The machine may change within the layout, but not its top levels. -/
theorem withWorld (h : Pool.Fits closed G ds ⟨tasks, w⟩) {tasks' : List (TaskId × Task Outcome)} {w' : World}
    (hworld : w'.Fits closed G (Unbound ds)) (htops : w'.tops = w.tops)
    (htasks : ∀ t ∈ tasks', t ∈ tasks ∨ G.Allows closed t.2) : Pool.Fits closed G ds ⟨tasks', w'⟩ where
  world := hworld
  tasks t ht := (htasks t ht).elim (h.tasks t) id
  tops k top htop := h.tops k top (htops ▸ htop)
  distinct k k' top top' htop htop' := h.distinct k k' top top' (htops ▸ htop) (htops ▸ htop')
  known k top n htop := h.known k top n (htops ▸ htop)
  compiled k block names hd := htops ▸ h.compiled k block names hd
  handed := h.handed
  ended := h.ended
  places := h.places
  missing := h.missing

/-- The tasks and the machine may change, but not what the layout is about. -/
theorem congr (h : Pool.Fits closed G ds ⟨tasks, w⟩) {tasks' : List (TaskId × Task Outcome)} {w' : World}
    (halike : w.Alike w') (hsound : w.Sound (G.quality closed) → w'.Sound (G.quality closed))
    (htasks : ∀ t ∈ tasks', t ∈ tasks ∨ G.Allows closed t.2) : Pool.Fits closed G ds ⟨tasks', w'⟩ :=
  h.withWorld (h.world.congr halike (hsound h.world.sound)) halike.tops htasks

/-- The store changes, and the layout with it, but the frames stay. -/
theorem withStore (h : Pool.Fits closed G ds ⟨tasks, w⟩) {G' : Layout} (hle : G.Le G') (halike : G.Alike G') {store : Store}
    (hstore : store.Fits G' (Unbound ds)) (hsound : World.Sound (G'.quality closed) { w with store }) :
    Pool.Fits closed G' ds ⟨tasks, { w with store }⟩ where
  world := ⟨hstore, hsound, fun s hs => (h.world.spawned s hs).mono hle⟩
  tasks t ht := Layout.Allows.mono hle (h.tasks t ht)
  tops k top htop := hle.home _ _ (h.tops k top htop)
  distinct := h.distinct
  known k top n htop hb := h.known k top n htop (halike.binds ▸ hb)
  compiled k block names hd :=
    let ⟨top, htop, hfits⟩ := h.compiled k block names hd
    ⟨top, htop, fun ctx hctx => (hfits ctx hctx).mono hle⟩
  handed v hv := (h.handed v hv).mono hle.quality
  ended who o ho := (h.ended who o ho).mono hle.quality
  places hc d hd g n c hu := hle.slot _ _ (h.places hc d hd g n c hu)
  missing n hn := h.missing n (halike.missing ▸ hn)

/-- The frame of a top level exists. -/
theorem top_lt (h : Pool.Fits closed G ds ⟨tasks, w⟩) {k : KernelId} {top : FrameId × List String}
    (htop : w.tops[k]? = some top) : top.1 < w.store.frames.size := by
  have hhome := h.tops k top htop
  rw [h.world.store.home] at hhome
  obtain ⟨frame, hframe, -⟩ := Option.map_eq_some_iff.1 hhome
  exact (Array.getElem?_eq_some_iff.1 hframe).1

/-- A layout that promises more, and one more deed, which is not about a top level. -/
theorem grow (h : Pool.Fits closed G ds ⟨tasks, w⟩) {G' : Layout} (hle : G.Le G') {d : Deed} {w' : World}
    (htops : w'.tops = w.tops)
    (hworld : w'.Fits closed G' (Unbound (ds ++ [d])))
    (hd : (∀ k n, ¬d.PutsBack k n) ∧ ∀ k block names, d ≠ .compiled k block names)
    (hbinds : ∀ f n, f < w.store.frames.size → G'.binds f n → G.binds f n)
    (hhanded : ∀ v, d = .handed v → v.Sound (G'.quality closed))
    (hended : ∀ who o, d = .ended who o → Outcome.Sound (G'.quality closed) o)
    (hplaces : closed → ∀ g n c, d.Places g n c → G'.slot c = some (g, n))
    (hmissing : ∀ n, G'.missing n → G.missing n ∨ Missed (ds ++ [d]) n) :
    Pool.Fits closed G' (ds ++ [d]) ⟨tasks, w'⟩ where
  world := hworld
  tasks t ht := Layout.Allows.mono hle (h.tasks t ht)
  tops k top htop := hle.home _ _ (h.tops k top (htops ▸ htop))
  distinct k k' top top' htop htop' := h.distinct k k' top top' (htops ▸ htop) (htops ▸ htop')
  known k top n htop hb := by
    have htop' := htops ▸ htop
    exact (h.known k top n htop' (hbinds _ _ (h.top_lt htop') hb)).imp_right fun hf => hf.later (hd.1 k n)
  compiled k block names hdeed := by
    rcases List.mem_append.1 hdeed with hdeed | hdeed
    · obtain ⟨top, htop, hfits⟩ := h.compiled k block names hdeed
      exact ⟨top, htops ▸ htop, fun ctx hctx => (hfits ctx hctx).mono hle⟩
    · exact absurd (List.mem_singleton.1 hdeed).symm (hd.2 k block names)
  handed v hv := by
    rcases List.mem_append.1 hv with hv | hv
    · exact (h.handed v hv).mono hle.quality
    · exact hhanded v (List.mem_singleton.1 hv).symm
  ended who o ho := by
    rcases List.mem_append.1 ho with ho | ho
    · exact (h.ended who o ho).mono hle.quality
    · exact hended who o (List.mem_singleton.1 ho).symm
  places hc d' hd' g n c hu := by
    rcases List.mem_append.1 hd' with hd' | hd'
    · exact hle.slot _ _ (h.places hc d' hd' g n c hu)
    · exact hplaces hc g n c (List.mem_singleton.1 hd' ▸ hu)
  missing n hn := (hmissing n hn).elim (fun hm => (h.missing n hm).later d) id

/-- One more deed that is about neither a top level nor a request. -/
theorem tell (h : Pool.Fits closed G ds ⟨tasks, w⟩) {d : Deed}
    (hd : (∀ k n, ¬d.PutsBack k n) ∧ ∀ k block names, d ≠ .compiled k block names)
    (hhanded : ∀ v, d = .handed v → v.Sound (G.quality closed))
    (hended : ∀ who o, d = .ended who o → Outcome.Sound (G.quality closed) o)
    (hplaces : ∀ g n c, ¬d.Places g n c) : Pool.Fits closed G (ds ++ [d]) ⟨tasks, w⟩ :=
  h.grow (.refl G) rfl (h.world.weaken fun _ _ => Unbound.later d) hd (fun _ _ _ => id) hhanded hended
    (fun _ g n c hu => absurd hu (hplaces g n c)) fun _ => .inl

/-- A top level may bind more names, all of which programs may refer to from now on, or that are forgotten. -/
theorem rename (h : Pool.Fits closed G ds ⟨tasks, w⟩) {k : KernelId} {kernel : Kernel} (hk : w.kernel? k = some kernel)
    (names : Kernel → List String) {P : String → Prop} {d : Deed} (hd : ∀ k' n, k' ≠ k → ¬d.PutsBack k' n)
    (hnames : ∀ n, G.binds kernel.globals n ∨ P n → n ∈ names kernel ∨ Forgotten (ds ++ [d]) k n)
    (hquiet : (∀ v, d ≠ .handed v) ∧ (∀ who o, d ≠ .ended who o) ∧ ∀ g n c, ¬d.Places g n c)
    (hcompiled : ∀ k' block names', d = .compiled k' block names' → k' = k ∧ ∀ ctx : Context, ctx.frame = kernel.globals →
      ctx.Fits closed (G.extend kernel.globals P) block.mentions) :
    Pool.Fits closed (G.extend kernel.globals P) (ds ++ [d])
      ⟨tasks, w.modifyKernel k fun kernel => { kernel with names := names kernel }⟩ := by
  have hle := G.le_extend kernel.globals P
  have htop := World.tops_of_kernel hk
  have hstore : w.store.Fits (G.extend kernel.globals P) (Unbound (ds ++ [d])) := by
    refine ⟨h.world.store.home, h.world.store.slot, fun hc => .inl (h.world.store.binds hc), fun {f n} hb => ?_,
      h.world.store.cells, fun hc => (h.world.store.kept hc).imp_left (Unbound.later d)⟩
    rcases hb with hb | ⟨rfl, -⟩
    · exact h.world.store.frames hb
    · exact h.top_lt htop
  have hsound : World.Sound (G.quality closed) (w.modifyKernel k fun kernel => { kernel with names := names kernel }) :=
    World.Sound.modifyKernel h.world.sound k fun _ hj => hj
  refine ⟨⟨hstore, hsound.mono hle.quality, fun s hs => (h.world.spawned s hs).mono hle⟩,
    fun t ht => Layout.Allows.mono hle (h.tasks t ht), fun k' top htop' => ?_, fun k₁ k₂ top₁ top₂ h₁ h₂ heq => ?_,
    fun k' top n htop' hb => ?_, fun k' block names' hdeed => ?_, fun v hv => ?_,
    fun who o ho => ?_, fun hc d' hd' g n c hu => ?_, fun n hn => (h.missing n hn).later d⟩
  · rcases World.tops_rename hk htop' with ⟨-, rfl⟩ | ⟨-, hother⟩
    · exact h.tops k (kernel.globals, kernel.names) htop
    · exact h.tops k' top hother
  · rcases World.tops_rename hk h₁ with ⟨hk₁, rfl⟩ | ⟨-, hother₁⟩
    · rcases World.tops_rename hk h₂ with ⟨hk₂, -⟩ | ⟨-, hother₂⟩
      · exact hk₁.trans hk₂.symm
      · exact hk₁.trans (h.distinct k k₂ _ top₂ htop hother₂ heq)
    · rcases World.tops_rename hk h₂ with ⟨hk₂, rfl⟩ | ⟨-, hother₂⟩
      · exact (h.distinct k₁ k top₁ _ hother₁ htop heq).trans hk₂.symm
      · exact h.distinct k₁ k₂ top₁ top₂ hother₁ hother₂ heq
  · rcases World.tops_rename hk htop' with ⟨rfl, rfl⟩ | ⟨hne, hother⟩
    · exact hnames n (hb.imp_right And.right)
    · have hb' : G.binds top.1 n := hb.resolve_right fun hb' => hne (h.distinct k' k top _ hother htop hb'.1)
      exact (h.known k' top n hother hb').imp_right fun hf => hf.later (hd k' n hne)
  · rcases List.mem_append.1 hdeed with hdeed | hdeed
    · obtain ⟨top, hold, hfits⟩ := h.compiled k' block names' hdeed
      obtain ⟨top', htop', heq⟩ := World.tops_renamed k names hold
      exact ⟨top', htop', fun ctx hctx => (hfits ctx (hctx.trans heq)).mono hle⟩
    · obtain ⟨rfl, hfits⟩ := hcompiled k' block names' (List.mem_singleton.1 hdeed).symm
      obtain ⟨top', htop', heq⟩ := World.tops_renamed k' names htop
      exact ⟨top', htop', fun ctx hctx => hfits ctx (hctx.trans heq)⟩
  · rcases List.mem_append.1 hv with hv | hv
    · exact (h.handed v hv).mono hle.quality
    · exact absurd (List.mem_singleton.1 hv).symm (hquiet.1 v)
  · rcases List.mem_append.1 ho with ho | ho
    · exact (h.ended who o ho).mono hle.quality
    · exact absurd (List.mem_singleton.1 ho).symm (hquiet.2.1 who o)
  · rcases List.mem_append.1 hd' with hd' | hd'
    · exact h.places hc d' hd' g n c hu
    · exact absurd (List.mem_singleton.1 hd' ▸ hu) (hquiet.2.2 g n c)

end Pool.Fits

/-! ## Histories -/

/-- The layout of an empty machine. -/
def Layout.empty : Layout := ⟨fun _ => none, fun _ => none, fun _ _ => False, fun _ => False⟩

/-- An empty machine fits an empty layout. -/
theorem Pool.Fits.create (closed : Prop) (files : FileTree) (source : ModuleSource) :
    Pool.Fits closed .empty [] ⟨[], .create files source⟩ := by
  have hlookup : ∀ f n c, (World.create files source).store.lookup? f n ≠ some c := by
    intro f n c hc
    rw [Store.lookup?_eq] at hc
    simp [World.create, Store.empty] at hc
  have htops : ∀ (k : KernelId) top, (World.create files source).tops[k]? ≠ some top := by simp [World.tops, World.create]
  have hstore : (World.create files source).store.Fits .empty (Unbound []) :=
    ⟨fun f => by simp [Layout.empty, World.create, Store.empty], fun hc => absurd hc (hlookup _ _ _),
      fun hc => absurd hc (hlookup _ _ _), fun hb => hb.elim, fun hc => (by cases hc), fun hc => (by cases hc)⟩
  exact ⟨⟨hstore, .create files source, List.forall_mem_nil _⟩, List.forall_mem_nil _, fun k top htop =>
    absurd htop (htops k top),
    fun k _ top _ htop => absurd htop (htops k top), fun k top _ htop => absurd htop (htops k top),
    fun _ _ _ hd => absurd hd List.not_mem_nil, fun _ hv => absurd hv List.not_mem_nil, fun _ _ ho =>
    absurd ho List.not_mem_nil, fun _ _ hd => absurd hd List.not_mem_nil, fun _ hn => hn.elim⟩

namespace Pool.Fits

/-- A new kernel has a top level of its own, which binds no names yet. -/
theorem addKernel (h : Pool.Fits closed G ds ⟨tasks, w⟩) (config : Config) (env : Environment) :
    ∃ G', G.Le G' ∧ Pool.Fits closed G' ds ⟨tasks, (w.addKernel config env).2⟩ := by
  obtain ⟨hle, hstore⟩ := h.world.store.newFrame none False
  have htops : ∀ (k : KernelId) top, (w.addKernel config env).2.tops[k]? = some top →
      (k = w.kernels.size ∧ top = (w.store.frames.size, [])) ∨ w.tops[k]? = some top := by
    intro k top htop
    simp only [World.tops, World.addKernel, Store.newFrame, Array.map_push, Array.getElem?_push, Array.size_map] at htop ⊢
    split at htop
    · rename_i hk
      exact .inl ⟨hk, (Option.some.inj htop).symm⟩
    · exact .inr htop
  have hkept : ∀ (k : KernelId) top, w.tops[k]? = some top → (w.addKernel config env).2.tops[k]? = some top := by
    intro k top htop
    have hlt : k ≠ w.kernels.size := by
      rintro rfl
      simp [World.tops] at htop
    simpa only [World.tops, World.addKernel, Store.newFrame, Array.map_push, Array.getElem?_push, Array.size_map,
      if_neg hlt] using htop
  have hne : ∀ (k : KernelId) top, w.tops[k]? = some top → top.1 ≠ w.store.frames.size :=
    fun k top htop => Nat.ne_of_lt (h.top_lt htop)
  refine ⟨_, hle, ⟨hstore, (h.world.sound.addKernel config env).mono hle.quality, fun s hs =>
    (h.world.spawned s hs).mono hle⟩,
    fun t ht => Layout.Allows.mono hle (h.tasks t ht), fun k top htop => ?_, fun k k' top top' htop htop' heq => ?_,
    fun k top n htop hb => ?_, fun k block names hdeed => ?_, fun v hv => (h.handed v hv).mono hle.quality,
    fun who o ho => (h.ended who o ho).mono hle.quality, h.places, h.missing⟩
  · rcases htops k top htop with ⟨-, rfl⟩ | hold
    · exact if_pos rfl
    · exact hle.home _ _ (h.tops k top hold)
  · rcases htops k top htop with ⟨hk, rfl⟩ | hold
    · rcases htops k' top' htop' with ⟨hk', -⟩ | hold'
      · exact hk.trans hk'.symm
      · exact absurd heq.symm (hne k' top' hold')
    · rcases htops k' top' htop' with ⟨-, rfl⟩ | hold'
      · exact absurd heq (hne k top hold)
      · exact h.distinct k k' top top' hold hold' heq
  · rcases hb with hb | ⟨-, hfalse⟩
    · rcases htops k top htop with ⟨-, rfl⟩ | hold
      · exact absurd (h.world.store.frames hb) (Nat.lt_irrefl _)
      · exact h.known k top n hold hb
    · exact hfalse.elim
  · obtain ⟨top, htop, hfits⟩ := h.compiled k block names hdeed
    exact ⟨top, hkept k top htop, fun ctx hctx => (hfits ctx hctx).mono hle⟩

/-- A program resolves on a kernel. -/
theorem compile (h : Pool.Fits closed G ds ⟨tasks, w⟩) {k : KernelId} {kernel : Kernel} (hk : w.kernel? k = some kernel)
    {chunk : Source.Chunk} {src : String} {block : Code.Block} {w' : World}
    (hcompile : w.compile k chunk src = (.ok block, w')) :
    ∃ G', G.Le G' ∧ w'.store = w.store ∧ Pool.Fits closed G' (ds ++ [.compiled k block (w'.names k)]) ⟨tasks, w'⟩ := by
  obtain ⟨after, htop, rfl, hnames⟩ := World.compile_ok hk hcompile
  rw [hnames]
  have hforgotten : ∀ n, Mention.drop n ∈ block.mentions → n ∈ after ∨ Forgotten (ds ++ [.compiled k block after]) k n := by
    intro n hdrop
    by_cases hn : n ∈ after
    · exact .inl hn
    · exact .inr ⟨ds, block, after, [], rfl, hdrop, hn, fun _ hd => nomatch hd⟩
  refine ⟨_, G.le_extend _ _, rfl, h.rename hk _ (P := fun n => .local n ∈ block.mentions)
    (fun k' n hne hputs => hne hputs.1.symm) (fun n hn => ?_)
    ⟨fun _ heq => (nomatch heq), fun _ _ heq => (nomatch heq), fun _ _ _ => id⟩ fun k' block' names' heq => ?_⟩
  · rcases hn with hn | hn
    · rcases h.known k _ n (World.tops_of_kernel hk) hn with hn | hn
      · exact (htop.known n hn).elim .inl (hforgotten n)
      · by_cases hafter : n ∈ after
        · exact .inl hafter
        · exact .inr (hn.later fun hputs => hafter hputs.2)
    · exact (htop.locals n hn).elim .inl (hforgotten n)
  · cases heq
    refine ⟨rfl, fun ctx hctx m hm => ?_⟩
    cases m with
    | «local» name => exact .inr ⟨hctx, hm⟩
    | taken name level => exact absurd hm (htop.taken name level)
    | fixed name => exact fun _ => htop.fixed name hm
    | drop name => trivial
    | change ref => trivial
    | make op => exact fun _ => htop.make op hm

/-- A variable of a top level gets a value from outside. -/
theorem setVar (h : Pool.Fits closed G ds ⟨tasks, w⟩) {k : KernelId} {kernel : Kernel} (hk : w.kernel? k = some kernel)
    (name : String) {v : Value} (hv : v.Sound (G.quality closed)) :
    ∃ G', G.Le G' ∧ w.store.Extends (w.setVar k name v).store ∧
    Pool.Fits closed G' (ds ++ [.assigned k name]) ⟨tasks, w.setVar k name v⟩ := by
  have hrename := h.rename hk (fun kernel => if kernel.names.contains name then kernel.names else kernel.names ++ [name])
    (P := (· = name)) (d := .assigned k name) (fun k' n hne hputs => hne hputs.1.symm) (fun n hn => ?_)
    ⟨fun _ heq => (nomatch heq), fun _ _ heq => (nomatch heq), fun _ _ _ => id⟩ fun _ _ _ heq => nomatch heq
  · obtain ⟨G', hle, halike, hstore⟩ := hrename.world.store.setVar
      (show (G.extend kernel.globals (· = name)).binds kernel.globals name from .inr ⟨rfl, rfl⟩) v
    have hsound := (hrename.world.sound.withStore
      (hrename.world.sound.store.setVar kernel.globals name (hv.mono (G.le_extend _ _).quality))).mono hle.quality
    have hset := hrename.withStore hle halike hstore hsound
    refine ⟨G', (G.le_extend _ _).trans hle, ?_⟩
    unfold World.setVar
    rw [hk]
    exact ⟨(Store.Grows.setVar (h.top_lt (World.tops_of_kernel hk)) name v).toExtends, hset⟩
  · have hmem : name ∈ if kernel.names.contains name then kernel.names else kernel.names ++ [name] := by
      split
      · rename_i hcontains
        exact List.contains_iff_mem.1 hcontains
      · exact List.mem_append_right _ (List.mem_singleton_self _)
    by_cases heq : n = name
    · exact .inl (heq ▸ hmem)
    · have hold := h.known k _ n (World.tops_of_kernel hk) (hn.resolve_right heq)
      refine hold.imp (fun hn => ?_) fun hf => hf.later fun hputs => heq hputs.2.symm
      split
      · exact hn
      · exact List.mem_append_left _ hn

/-- A request is answered. -/
theorem answer {before after : List (TaskId × Task Outcome)} {who : TaskId} {r : Request} {next : r.Response → Task Outcome}
    (h : Pool.Fits closed G ds ⟨before ++ (who, .request r next) :: after, w⟩) {x : r.Response} {w' : World}
    (hx : w.perform who r = (some x, w')) :
    ∃ G', G.Le G' ∧ w.store.Extends w'.store ∧
      Pool.Fits closed G' (ds ++ [.answered who w r x w']) ⟨before ++ (who, next x) :: after, w'⟩ := by
  obtain ⟨hneeds, hnext⟩ : G.Allows closed (.request r next) := h.tasks (who, .request r next) (by simp)
  obtain ⟨G', htells, hadds, htops, hworld⟩ := h.world.perform who hneeds hx
  have hextends := h.world.extends_perform who hneeds hx
  have hworld' : w'.Fits closed G' (Unbound (ds ++ [.answered who w r x w'])) := by
    refine hworld.weaken fun f n hgone => hgone.elim (Unbound.later _) ?_
    rintro rfl
    exact ⟨who, w, x, w', by simp⟩
  have hgrown := h.grow htells.1 htops hworld' ⟨fun _ _ => id, fun _ _ _ heq => nomatch heq⟩ hadds.binds
    (fun _ heq => nomatch heq)
    (fun _ _ heq => nomatch heq) (fun hc g n c hu => h.world.store.slot_of_places hc hneeds htells hu)
    fun n hn => (hadds.missing n hn).imp_right fun hmiss => ⟨who, w, r, x, w', by simp, hmiss⟩
  refine ⟨G', htells.1, hextends, hgrown.congr (.refl w') id fun t ht => ?_⟩
  simp only [List.mem_append, List.mem_cons] at ht ⊢
  rcases ht with ht | rfl | ht
  · exact .inl (.inl ht)
  · exact .inr (hnext x G' htells)
  · exact .inl (.inr (.inr ht))

/-- A program that resolved is started at the top level of its kernel. -/
theorem launch (h : Pool.Fits closed G ds ⟨tasks, w⟩) {k : KernelId} {kernel : Kernel} (hk : w.kernel? k = some kernel)
    {block : Code.Block} {names : List String} (hblock : .compiled k block names ∈ ds) (l : Limits) {input : Bytes}
    {values : List Value}
    (hvalues : Value.AllSound (G.quality closed) values) {main : Task Outcome} {out err : CollectorId} {w' : World}
    (hlaunch : w.launch l.evaluator k kernel.globals block input values = (main, out, err, w')) :
    Pool.Fits closed G ds ⟨tasks ++ [(w'.nextTask, main)], { w' with nextTask := w'.nextTask + 1 }⟩ := by
  obtain ⟨top, htop, hfits⟩ := h.compiled k block names hblock
  have hglobals : top.1 = kernel.globals := congrArg Prod.fst (Option.some.inj (htop.symm.trans (World.tops_of_kernel hk)))
  cases hlaunch
  refine h.congr ⟨rfl, rfl, rfl, rfl⟩ (fun hsound => ?_) fun t ht => ?_
  · have hstarted : World.Sound _ (w.launch l.evaluator k kernel.globals block input values).2.2.2 := hsound.launch hvalues
    exact ⟨hstarted.store, hstarted.channels, hstarted.collectors, hstarted.jobs, hstarted.ended⟩
  · rcases List.mem_append.1 ht with ht | ht
    · exact .inl ht
    · cases List.mem_singleton.1 ht
      exact .inr (Layout.allows_block l (hfits _ hglobals.symm))

/-- What was started is taken up. -/
theorem adopt {p : Pool} (h : Pool.Fits closed G ds p) (l : Limits) :
    Pool.Fits closed G ds (p.adopt l.evaluator.evalWork) where
  world := ⟨h.world.store, ⟨h.world.sound.store, h.world.sound.channels, h.world.sound.collectors, h.world.sound.jobs,
    h.world.sound.ended⟩, fun _ hs => nomatch hs⟩
  tasks t ht := by
    rcases List.mem_append.1 ht with ht | ht
    · exact h.tasks t ht
    · obtain ⟨s, hs, rfl⟩ := List.mem_map.1 ht
      exact Evaluator.evalWork_allows l (h.world.spawned s hs)
  tops := h.tops
  distinct := h.distinct
  known := h.known
  compiled := h.compiled
  handed := h.handed
  ended := h.ended
  places := h.places
  missing := h.missing

/-- A step of the tasks fits the layout that comes of it. -/
theorem step {p p' : Pool} {ds' : List Deed} (h : Pool.Fits closed G ds p) (hs : p.Step ds' p') :
    ∃ G', G.Le G' ∧ p.world.store.Extends p'.world.store ∧ Pool.Fits closed G' (ds ++ ds') p' := by
  cases hs with
  | answer hx => exact h.answer hx
  | @wait before who r next after w w' hx =>
    obtain ⟨hneeds, -⟩ : G.Allows closed (.request r next) := h.tasks (who, .request r next) (by simp)
    obtain ⟨hworld, htops⟩ := h.world.wait who hneeds hx
    have hextends := h.world.extends_perform who hneeds hx
    rw [List.append_nil]
    exact ⟨G, .refl G, hextends, h.withWorld hworld htops fun t ht => .inl ht⟩
  | @finish before who o after w =>
    have ho : G.Allows closed (.ret o) := h.tasks (who, .ret o) (by simp)
    have hsound := h.world.sound.endTask who ho
    have hfewer : Pool.Fits closed G ds ⟨before ++ after, w.endTask who o⟩ :=
      h.congr ⟨rfl, rfl, rfl, rfl⟩ (fun _ => hsound) fun t ht => .inl (by
        simp only [List.mem_append, List.mem_cons] at ht ⊢
        exact ht.imp_right .inr)
    refine ⟨G, .refl G, .of_eq rfl rfl, hfewer.tell ⟨fun _ _ => id, fun _ _ _ heq => nomatch heq⟩
      (fun _ heq => nomatch heq) (fun _ _ heq => ?_) fun _ _ _ => id⟩
    cases heq
    exact ho
  | giveUp =>
    rw [List.append_nil]
    refine ⟨G, .refl G, .of_eq rfl rfl, h.congr (.refl _) id fun t ht => .inl ?_⟩
    simp only [List.mem_append, List.mem_cons] at ht ⊢
    exact ht.imp_right .inr
  | takeUp l =>
    rw [List.append_nil]
    exact ⟨G, .refl G, .of_eq rfl rfl, h.adopt l⟩

end Pool.Fits

/-- Between two machines, with these deeds, a layout and the store grew. -/
structure Layout.Grown (G : Layout) (ds ds' : List Deed) (w w' : World) (G' : Layout) : Prop where
  le : G.Le G'
  stores : w.store.Extends w'.store
  fits : w.store.Fits G (Unbound ds)
  fits' : w'.store.Fits G' (Unbound (ds ++ ds'))
  answered : ∀ {who w₀ r x w₁}, .answered who w₀ r x w₁ ∈ ds' → w₀ = w ∧ w₁ = w' ∧ w.perform who r = (some x, w')

/-- What a step of the tasks tells of a request is what the machine answered. -/
theorem Pool.Step.performs {p p' : Pool} {ds : List Deed} (hs : p.Step ds p') {who : TaskId} {w w' : World} {r : Request}
    {x : r.Response} (hd : .answered who w r x w' ∈ ds) :
    w = p.world ∧ w' = p'.world ∧ p.world.perform who r = (some x, p'.world) := by
  cases hs with
  | answer hx =>
    cases List.mem_singleton.1 hd
    exact ⟨rfl, rfl, hx⟩
  | finish => nomatch List.mem_singleton.1 hd
  | wait | giveUp | takeUp => nomatch hd

namespace Pool.Fits

variable {closed : Prop} {G G' : Layout} {ds ds' : List Deed} {p p' : Pool}

/-- Where no request was answered, the layout and the store only grew. -/
theorem grown (h : Pool.Fits closed G ds p) (h' : Pool.Fits closed G' (ds ++ ds') p') (hle : G.Le G')
    (hextends : p.world.store.Extends p'.world.store) (hds' : ∀ who w r x w', .answered who w r x w' ∉ ds') :
    G.Grown ds ds' p.world p'.world G' :=
  ⟨hle, hextends, h.world.store, h'.world.store, fun hd => absurd hd (hds' _ _ _ _ _)⟩

/-- A value that is supplied from outside is sound. -/
theorem sound_supplied {Supplied : List Deed → Value → Prop} (h : Pool.Fits closed G ds p)
    (hsupplied : ∀ ds v, Supplied ds v → closed → Made ds v) {v : Value} (hv : Supplied ds v) :
    v.Sound (G.quality closed) := by
  by_cases hclosed : closed
  · exact hsupplied ds v hv hclosed _ h.handed
  · exact Value.sound_of_isOpen ⟨fun _ hc => absurd hc hclosed, fun _ hc => absurd hc hclosed⟩ v

end Pool.Fits

/-- After every history there is a layout that everything fits, and that has what such layouts have at first and keep
while they grow. -/
theorem History.fits_keeping (closed : Prop) {Supplied : List Deed → Value → Prop}
    (hsupplied : ∀ ds v, Supplied ds v → closed → Made ds v) {P : Layout → List Deed → World → Prop}
    (hcreate : ∀ files source, P .empty [] (.create files source))
    (hgrown : ∀ {G G' ds ds' w w'}, G.Grown ds ds' w w' G' → P G ds w → P G' (ds ++ ds') w') {p : Pool}
    (h : History Supplied ds p) : ∃ G, Pool.Fits closed G ds p ∧ P G ds p.world := by
  -- What is done from outside answers no requests, and some of it is not told of at all.
  have hquiet : ∀ {G G' ds ds'} {p p' : Pool}, Pool.Fits closed G ds p → Pool.Fits closed G' (ds ++ ds') p' → G.Le G' →
      p.world.store.Extends p'.world.store → (∀ who w r x w', .answered who w r x w' ∉ ds') → P G ds p.world →
      ∃ G, Pool.Fits closed G (ds ++ ds') p' ∧ P G (ds ++ ds') p'.world :=
    fun hG hG' hle hextends hds' hP => ⟨_, hG', hgrown (hG.grown hG' hle hextends hds') hP⟩
  have hsilent : ∀ {G G' ds} {p p' : Pool}, Pool.Fits closed G ds p → Pool.Fits closed G' ds p' → G.Le G' →
      p.world.store.Extends p'.world.store → P G ds p.world → ∃ G, Pool.Fits closed G ds p' ∧ P G ds p'.world := by
    intro G G' ds p p' hG hG' hle hextends hP
    rw [← List.append_nil ds] at hG' ⊢
    exact hquiet hG hG' hle hextends (fun _ _ _ _ _ => List.not_mem_nil) hP
  induction h with
  | create files source => exact ⟨_, .create closed files source, hcreate files source⟩
  | step h hs ih =>
    obtain ⟨G, hG, hP⟩ := ih
    obtain ⟨G', hle, hextends, hG'⟩ := hG.step hs
    exact ⟨G', hG', hgrown ⟨hle, hextends, hG.world.store, hG'.world.store, hs.performs⟩ hP⟩
  | @addKernel ds tasks w config env h ih =>
    obtain ⟨G, hG, hP⟩ := ih
    obtain ⟨G', hle, hG'⟩ := hG.addKernel config env
    exact hsilent hG hG' hle (Store.Grows.newFrame w.store none).toExtends hP
  | compile h hk hcompile ih =>
    obtain ⟨G, hG, hP⟩ := ih
    obtain ⟨G', hle, hstore, hG'⟩ := hG.compile hk hcompile
    exact hquiet hG hG' hle (.of_eq (by rw [hstore]) (by rw [hstore])) (fun _ _ _ _ _ hd =>
      nomatch List.mem_singleton.1 hd) hP
  | launch l input h hblock hk hvalues hlaunch ih =>
    obtain ⟨G, hG, hP⟩ := ih
    have hG' := hG.launch hk hblock l (fun v hv => hG.sound_supplied hsupplied (hvalues v hv)) hlaunch
    cases hlaunch
    exact hsilent hG hG' (.refl G) (.of_eq rfl rfl) hP
  | setVar name h hk hv ih =>
    obtain ⟨G, hG, hP⟩ := ih
    obtain ⟨G', hle, hextends, hG'⟩ := hG.setVar hk name (hG.sound_supplied hsupplied hv)
    exact hquiet hG hG' hle hextends (fun _ _ _ _ _ hd => nomatch List.mem_singleton.1 hd) hP
  | @setEnv ds tasks w k name text h ih =>
    obtain ⟨G, hG, hP⟩ := ih
    have hsame : w.Quiet (w.setEnv k name text) := .modifyKernel w k fun _ => ⟨rfl, rfl⟩
    exact hsilent hG (hG.congr hsame.toAlike (fun hs => hs.modifyKernel k fun _ hj => hj) fun t ht => .inl ht) (.refl G)
      hsame.extends hP
  | handOut h hv ih =>
    obtain ⟨G, hG, hP⟩ := ih
    refine hquiet hG (hG.tell ⟨fun _ _ => id, fun _ _ _ heq => nomatch heq⟩ (fun v heq => ?_) (fun _ _ heq => nomatch heq)
      fun _ _ _ => id) (.refl G) (.of_eq rfl rfl) (fun _ _ _ _ _ hd => nomatch List.mem_singleton.1 hd) hP
    cases heq
    exact hv _ hG.world.sound
  | @takeCollected ds tasks w c h ih =>
    obtain ⟨G, hG, hP⟩ := ih
    have hsame := World.Quiet.takeCollected w c
    exact hsilent hG (hG.congr hsame.toAlike (fun hs => (hs.takeCollected c).1) fun t ht => .inl ht) (.refl G)
      hsame.extends hP
  | takeEnded h ht ih =>
    obtain ⟨G, hG, hP⟩ := ih
    have hsame := World.Quiet.takeEnded ht
    exact hsilent hG (hG.congr hsame.toAlike (fun hs => (hs.takeEnded ht).1) fun t ht => .inl ht) (.refl G) hsame.extends hP
  | identify fresh h ih =>
    obtain ⟨G, hG, hP⟩ := ih
    exact hsilent hG (hG.congr ⟨rfl, rfl, rfl, rfl⟩ (fun hs => ⟨hs.store, hs.channels, hs.collectors, hs.jobs, hs.ended⟩)
      fun t ht => .inl ht) (.refl G) (.of_eq rfl rfl) hP
  | @clearModules ds tasks w h ih =>
    obtain ⟨G, hG, hP⟩ := ih
    have hcleared : Pool.Fits closed G ds ⟨tasks, { w with modules := w.modules.clear }⟩ :=
      hG.congr ⟨rfl, rfl, rfl, rfl⟩ (fun hs => ⟨hs.store, hs.channels, hs.collectors, hs.jobs, hs.ended⟩) fun t ht => .inl ht
    refine hquiet hG (hcleared.tell ⟨fun _ _ => id, fun _ _ _ heq => ?_⟩ (fun v heq => ?_) (fun _ _ heq => ?_)
      fun _ _ _ => id) (.refl G) (.of_eq rfl rfl) (fun _ _ _ _ _ hd => nomatch List.mem_singleton.1 hd) hP
    all_goals cases heq

/-- After every history there is a layout that everything fits. -/
theorem History.fits (closed : Prop) {Supplied : List Deed → Value → Prop}
    (hsupplied : ∀ ds v, Supplied ds v → closed → Made ds v) {p : Pool}
    (h : History Supplied ds p) : ∃ G, Pool.Fits closed G ds p := by
  obtain ⟨G, hG, -⟩ := h.fits_keeping closed hsupplied (P := fun _ _ _ => True) (fun _ _ => trivial) fun _ _ => trivial
  exact ⟨G, hG⟩

end DualShell
