import DualShell.Proofs.Scope.Resolve

/-!
# Names are looked up lexically

Whatever is done to the scope of a top level (`Scope.Reached`), a lookup finds the highest frame that binds the name,
counted from the outermost one, and it finds nothing only where no frame binds it. The captures on the way to that frame
are recorded, and each of them tells whether the frame around binds the name or takes it along in turn
(`Scope.Reached.findsLexically`). All of this is read off the records fitting together, which everything that is done to
a scope keeps (`Scope.Step.linked`).
-/

namespace DualShell

/-! ## What is recorded -/

/-- A name that is taken along is bound by one of the frames around. -/
theorem Capture.LinkedTo.exists_bound {c : Capture} : {fs : List StaticFrame} → FramesLinked fs → c.LinkedTo fs →
    ∃ f ∈ fs, f.hasLocal c.name = true
  | _ :: _, _, .here _ bound => ⟨_, List.mem_cons_self, bound⟩
  | _ :: _, ⟨hf, hfs⟩, .further _ _ taken => by
    obtain ⟨c', hc', hname⟩ := StaticFrame.hasCapture_iff.1 taken
    obtain ⟨f, hmem, hlocal⟩ := exists_bound hfs (hf.captures c' hc')
    exact ⟨f, List.mem_cons_of_mem _ hmem, hname ▸ hlocal⟩

namespace FramesLinked

variable {name : String} {f : StaticFrame} {fs : List StaticFrame}

/-- A lookup through frames fails where none of them binds the name. -/
theorem reach_eq_none_iff (h : FramesLinked fs) : Scope.reach name fs = none ↔ ∀ f ∈ fs, f.hasLocal name = false := by
  refine ⟨fun hr => ?_, fun hnone => ?_⟩
  · induction fs with
    | nil => exact List.forall_mem_nil _
    | cons f fs ih =>
      unfold Scope.reach at hr
      split at hr
      · cases hr
      · rename_i hlocal
        dsimp only at hr
        split at hr
        · cases hr
        · split at hr
          · rename_i hinner
            exact List.forall_mem_cons.2 ⟨Bool.eq_false_iff.2 hlocal, ih h.2 hinner⟩
          · cases hr
  · cases hr : Scope.reach name fs with
    | none => rfl
    | some found =>
      obtain ⟨hgs, hgrew, hc⟩ := h.reach hr
      obtain ⟨g, hg, hlocal⟩ := hgrew.bound (hc.exists_bound hgs)
      rw [hnone g hg] at hlocal
      cases hlocal

/-- A name that a frame takes along is recorded with the level at which the frames around bind it, and the nearest of
them takes it along in turn unless it binds it. -/
theorem recorded (h : FramesLinked (f :: fs)) (hc : f.hasCapture name = true) :
    ⟨name, if Scope.level name fs = 0 then .local else @CaptureSource.captured (Scope.level name fs)⟩ ∈ f.captures ∧
      (Scope.level name fs ≠ 0 → ∃ g gs, fs = g :: gs ∧ g.hasLocal name = false ∧ g.hasCapture name = true) := by
  obtain ⟨c, hmem, rfl⟩ := StaticFrame.hasCapture_iff.1 hc
  have hlinked := h.1.captures c hmem
  cases hlinked with
  | @here g outer source bound =>
    have hlevel : Scope.level c.name (g :: outer) = 0 := by simp [Scope.level, List.findIdx_cons, bound]
    rw [if_pos hlevel, ← source]
    exact ⟨hmem, fun hne => absurd hlevel hne⟩
  | @further g outer source unbound taken =>
    have hlevel : Scope.level c.name (g :: outer) ≠ 0 := by simp [Scope.level, List.findIdx_cons, unbound]
    rw [if_neg hlevel, ← source]
    exact ⟨hmem, fun _ => ⟨g, outer, rfl, unbound, taken⟩⟩

/-- So from a frame that takes a name along out to the one that binds it, each takes it along from the next. -/
theorem recorded_all : {f : StaticFrame} → {fs : List StaticFrame} → FramesLinked (f :: fs) → f.hasCapture name = true →
    ∀ {i : Nat} {g : StaticFrame}, i ≤ Scope.level name fs → (f :: fs)[i]? = some g →
      ⟨name, if Scope.level name fs = i then .local else @CaptureSource.captured (Scope.level name fs - i)⟩ ∈ g.captures
  | f, fs, h, hc, 0, g, _, hg => by
    cases hg
    exact (h.recorded hc).1
  | f, fs, h, hc, i + 1, g, hi, hg => by
    obtain ⟨f', fs', rfl, unbound, taken⟩ := (h.recorded hc).2 (by omega)
    have hlevel : Scope.level name (f' :: fs') = Scope.level name fs' + 1 := by
      simp [Scope.level, List.findIdx_cons, unbound]
    rw [hlevel] at hi ⊢
    have hrest := recorded_all h.2 taken (Nat.le_of_succ_le_succ hi) hg
    simpa only [Nat.succ_inj, Nat.add_sub_add_right] using hrest

end FramesLinked

/-! ## Heights -/

namespace Scope

/-- The frame at a height; the outermost one is at height zero. -/
def frame? (s : Scope) (height : Nat) : Option StaticFrame := s.frames.reverse[height]?

/-- Of the frames lower than a depth, the one at the height is the highest that binds the name. -/
structure HighestBinding (s : Scope) (name : String) (depth height : Nat) : Prop where
  lt : height < depth
  bound : ∃ f, s.frame? height = some f ∧ f.hasLocal name = true
  above : ∀ h f, height < h → h < depth → s.frame? h = some f → f.hasLocal name = false

/-- All frames above the height take the name along: the nearest from the frame at the height, and the others each from
the frame around. -/
def TakesFrom (s : Scope) (name : String) (height : Nat) : Prop :=
  ∀ h f, height < h → s.frame? h = some f →
    ⟨name, if h = height + 1 then .local else @CaptureSource.captured (h - height - 1)⟩ ∈ f.captures

variable {s t : Scope} {name : String}

/-- The depth of a scope is the number of its frames. -/
theorem depth_eq (s : Scope) : s.depth = s.outer.length + 1 := rfl

/-- Heights count from the other end. -/
theorem frame?_eq_some {h : Nat} {f : StaticFrame} :
    s.frame? h = some f ↔ h < s.depth ∧ s.frames[s.depth - 1 - h]? = some f := by
  unfold frame?
  by_cases hlt : h < s.depth
  · rw [List.getElem?_reverse hlt, and_iff_right hlt]
    rfl
  · rw [List.getElem?_eq_none (by simpa [depth] using hlt)]
    simp [hlt]

/-- The innermost frame is the highest. -/
theorem frame?_innermost : s.frame? (s.depth - 1) = some s.inner := by
  rw [frame?_eq_some, Nat.sub_self]
  exact ⟨Nat.sub_lt (Nat.succ_pos _) Nat.one_pos, rfl⟩

/-- The frames around the innermost one are those lower than it. -/
theorem exists_frame?_iff {f : StaticFrame} : f ∈ s.outer ↔ ∃ h, h < s.depth - 1 ∧ s.frame? h = some f := by
  rw [List.mem_iff_getElem?]
  refine ⟨fun ⟨i, hi⟩ => ?_, fun ⟨h, hlt, hf⟩ => ?_⟩
  · have hlt := (List.getElem?_eq_some_iff.1 hi).1
    have hdepth := s.depth_eq
    refine ⟨s.depth - 1 - (i + 1), by omega, frame?_eq_some.2 ⟨by omega, ?_⟩⟩
    rw [show s.depth - 1 - (s.depth - 1 - (i + 1)) = i + 1 by omega]
    exact hi
  · have hframe := (frame?_eq_some.1 hf).2
    obtain ⟨i, hi⟩ : ∃ i, s.depth - 1 - h = i + 1 := ⟨s.depth - 1 - h - 1, by omega⟩
    rw [hi] at hframe
    exact ⟨i, hframe⟩

/-- The frames are the innermost one and those around it. -/
theorem forall_frame?_iff {P : StaticFrame → Prop} :
    (∀ h f, s.frame? h = some f → P f) ↔ P s.inner ∧ ∀ f ∈ s.outer, P f := by
  refine ⟨fun hall => ⟨hall _ _ frame?_innermost, fun f hf => ?_⟩, fun ⟨hinner, houter⟩ h f hf => ?_⟩
  · obtain ⟨h, -, hf⟩ := exists_frame?_iff.1 hf
    exact hall h f hf
  · obtain rfl | hne := Classical.em (h = s.depth - 1)
    · cases frame?_innermost.symm.trans hf
      exact hinner
    · have hlt := (frame?_eq_some.1 hf).1
      exact houter f (exists_frame?_iff.2 ⟨h, by omega, hf⟩)

/-- The level of a name among the frames around the innermost one, by the height of the highest of them that binds it. -/
theorem HighestBinding.level {b : Nat} (h : s.HighestBinding name (s.depth - 1) b) :
    Scope.level name s.outer + 1 = s.depth - 1 - b := by
  obtain ⟨hlt, ⟨f, hf, hlocal⟩, habove⟩ := h
  have hdepth := s.depth_eq
  obtain ⟨-, hf⟩ := frame?_eq_some.1 hf
  have hindex : s.depth - 1 - b = (s.depth - 1 - b - 1) + 1 := by omega
  rw [hindex] at hf ⊢
  have hi : s.depth - 1 - b - 1 < s.outer.length := by omega
  obtain ⟨_, hget⟩ := List.getElem?_eq_some_iff.1 (show s.outer[s.depth - 1 - b - 1]? = some f from hf)
  refine congrArg (· + 1) ((List.findIdx_eq hi).2 ⟨by rw [hget]; exact hlocal, fun j hj => ?_⟩)
  refine habove (s.depth - 1 - (j + 1)) _ (by omega) (by omega) (frame?_eq_some.2 ⟨by omega, ?_⟩)
  rw [show s.depth - 1 - (s.depth - 1 - (j + 1)) = j + 1 by omega]
  exact List.getElem?_eq_getElem (Nat.lt_trans hj hi)

/-- In a scope whose records fit, a name that the innermost frame takes along is taken along all the way. -/
theorem Linked.takesFrom (h : s.Linked) (hc : s.inner.hasCapture name = true) {b : Nat}
    (hb : Scope.level name s.outer + 1 = s.depth - 1 - b) :
    s.TakesFrom name b := by
  intro height f hlt hf
  obtain ⟨hheight, hf⟩ := frame?_eq_some.1 hf
  have hrecorded := FramesLinked.recorded_all h hc (by omega) hf
  have hiff : (Scope.level name s.outer = s.depth - 1 - height) ↔ height = b + 1 := by omega
  rwa [show Scope.level name s.outer - (s.depth - 1 - height) = height - b - 1 by omega, if_congr hiff rfl rfl] at hrecorded

/-! ## What lookups do -/

/-- A name that is found around the innermost frame is taken along from there. -/
theorem Linked.captureInner_takesFrom (h : s.Linked) (ht : s.captureInner name = some t) {b : Nat}
    (hb : s.HighestBinding name (s.depth - 1) b) : s.captured name = @Ref.captured (s.depth - 1 - b) name ∧
    t.TakesFrom name b := by
  have hleads := h.captureInner ht
  have hlevel := hb.level
  obtain ⟨c, hc, hname, -⟩ := hleads.bound _ (List.mem_singleton_self (Mention.taken name _))
  refine ⟨by rw [captured, hlevel], hleads.linked.takesFrom (StaticFrame.hasCapture_iff.2 ⟨c, hc, hname⟩) ?_⟩
  rw [hleads.outer.level, t.depth_eq, ← hleads.outer.length_eq]
  exact hlevel

/-- Nothing is taken along if no frame around has the name. -/
theorem captureInner_eq_none_iff (h : s.Linked) : s.captureInner name = none ↔ ∀ f ∈ s.outer, f.hasLocal name = false := by
  rw [← FramesLinked.reach_eq_none_iff h.2, captureInner]
  split <;> simp_all

/-- A look-up from outside the innermost frame takes the name along. -/
theorem resolveUp_fst (s : Scope) (name : String) :
    (s.resolveUp name).1 = (s.captureInner name).map fun _ => s.captured name := by
  unfold resolveUp
  split <;> simp_all

/-- A lookup that does not end at the innermost frame fails where no frame around binds the name. -/
theorem Linked.resolve_eq_none_iff (h : s.Linked) :
    (s.resolve name).1 = none ↔ s.inner.hasLocal name = false ∧ ∀ f ∈ s.outer, f.hasLocal name = false := by
  rw [← captureInner_eq_none_iff h]
  unfold Scope.resolve
  split
  · simp_all
  · split
    · rename_i hcapture
      obtain ⟨c, hc, rfl⟩ := StaticFrame.hasCapture_iff.1 hcapture
      obtain ⟨f, hf, hlocal⟩ := (h.1.captures c hc).exists_bound h.2
      rw [captureInner_eq_none_iff h]
      refine ⟨fun hr => (nomatch hr), fun hnone => ?_⟩
      rw [hnone.2 f hf] at hlocal
      cases hlocal
    · split <;> simp_all

/-! ## Scopes of a top level -/

/-- Something that is done to a scope. The outermost frame is never closed. -/
inductive Step : Scope → Scope → Prop
  | declare (s : Scope) (name : String) : Step s (s.declare name)
  | undeclare (s : Scope) (name : String) : Step s (s.undeclare name)
  | push (s : Scope) : Step s s.push
  | pop {s : Scope} (h : s.outer ≠ []) : Step s s.pop.2
  | resolve (s : Scope) (name : String) : Step s (s.resolve name).2
  | resolveUp (s : Scope) (name : String) : Step s (s.resolveUp name).2

/-- What the scope of a top level that knows some names can become. -/
inductive Reached (names : List String) : Scope → Prop
  | ofGlobals : Reached names (.ofGlobals names)
  | step {s t : Scope} (h : Reached names s) (hs : s.Step t) : Reached names t

/-- How lookups go in a scope, and what is recorded in its frames. -/
structure FindsLexically (s : Scope) : Prop where
  /-- A lookup finds nothing where no frame binds the name. -/
  unfound : ∀ name, (s.resolve name).1 = none ↔ ∀ h f, s.frame? h = some f → f.hasLocal name = false
  /-- What the innermost frame binds is a variable of its own. -/
  own : ∀ name b, s.HighestBinding name s.depth b → b + 1 = s.depth → (s.resolve name).1 = some (.local name)
  /-- What another frame binds is taken along from there. -/
  taken : ∀ name b, s.HighestBinding name s.depth b → b + 1 ≠ s.depth →
    (s.resolve name).1 = some (@Ref.captured (s.depth - 1 - b) name) ∧ (s.resolve name).2.TakesFrom name b
  unfoundUp : ∀ name, (s.resolveUp name).1 = none ↔ ∀ h f, h < s.depth - 1 → s.frame? h = some f → f.hasLocal name = false
  takenUp : ∀ name b, s.HighestBinding name (s.depth - 1) b →
    (s.resolveUp name).1 = some (@Ref.captured (s.depth - 1 - b) name) ∧ (s.resolveUp name).2.TakesFrom name b
  notOwn : ∀ name other, (s.resolveUp name).1 ≠ some (.local other)
  /-- No frame takes a name along twice. -/
  once : ∀ h f, s.frame? h = some f → (f.captures.map (·.name)).Nodup
  /-- A frame that stays keeps what it takes along. -/
  added : ∀ t, s.Step t → ∀ h f g, s.frame? h = some f → t.frame? h = some g → f.captures <+: g.captures
  outermost : ∀ f, s.frame? 0 = some f → f.captures = []

namespace Linked

/-- A frame of a scope whose records fit takes no name along twice. -/
theorem nodup_of_mem : {fs : List StaticFrame} → FramesLinked fs → ∀ f ∈ fs, (f.captures.map (·.name)).Nodup
  | [], _ => List.forall_mem_nil _
  | _ :: _, ⟨hf, hfs⟩ => List.forall_mem_cons.2 ⟨hf.nodup, nodup_of_mem hfs⟩

/-- The outermost frame has nothing around it to take along. -/
theorem captures_outermost : {fs : List StaticFrame} → FramesLinked fs → ∀ f, fs.getLast? = some f → f.captures = []
  | [f], ⟨hf, _⟩, _, hlast => by
    cases hlast
    exact List.eq_nil_iff_forall_not_mem.2 fun c hc => nomatch hf.captures c hc
  | _ :: g :: fs, ⟨_, hfs⟩, f, hlast => captures_outermost hfs f (by rwa [List.getLast?_cons_cons] at hlast)

/-- Lookups keep records fitting, and frames only grow. -/
theorem resolve_leads (h : s.Linked) (name : String) : ∃ ms, Leads ms s (s.resolve name).2 := by
  rcases hr : s.resolve name with ⟨_ | ref, t⟩
  · cases resolve_none hr
    exact ⟨[], .nil h⟩
  · exact ⟨_, h.resolve hr⟩

/-- A look-up from outside the innermost frame leads on by what it mentions. -/
theorem resolveUp_leads (h : s.Linked) (name : String) : ∃ ms, Leads ms s (s.resolveUp name).2 := by
  rcases hr : s.resolveUp name with ⟨_ | ref, t⟩
  · cases resolveUp_none hr
    exact ⟨[], .nil h⟩
  · exact ⟨_, h.resolveUp hr⟩

end Linked

/-- The frames that are there before and after a step, one by one. -/
theorem Leads.added {ms : List Mention} (h : Leads ms s t) {height : Nat} {f g : StaticFrame} (hf : s.frame? height = some f)
    (hg : t.frame? height = some g) : f.captures <+: g.captures := by
  have hdepth : t.depth = s.depth := congrArg (· + 1) h.outer.length_eq.symm
  obtain ⟨-, hf⟩ := frame?_eq_some.1 hf
  obtain ⟨-, hg⟩ := frame?_eq_some.1 hg
  rw [hdepth] at hg
  cases hi : s.depth - 1 - height with
  | zero =>
    rw [hi] at hf hg
    cases hf
    cases hg
    exact h.captures
  | succ i =>
    rw [hi] at hf hg
    obtain ⟨hlt, rfl⟩ := List.getElem?_eq_some_iff.1 (show s.outer[i]? = some f from hf)
    obtain ⟨hlt', rfl⟩ := List.getElem?_eq_some_iff.1 (show t.outer[i]? = some g from hg)
    exact (h.outer.get hlt hlt').captures

namespace Step

/-- Whatever is done to a scope, its records keep fitting. -/
theorem linked (hs : s.Step t) (h : s.Linked) : t.Linked := by
  cases hs with
  | declare name => exact (h.declare name).linked
  | undeclare name => exact (h.undeclare name).linked
  | push => exact h.push
  | pop hne =>
    obtain ⟨inner, outer⟩ := s
    cases outer with
    | nil => exact absurd rfl hne
    | cons f fs => exact h.2
  | resolve name => exact (h.resolve_leads name).choose_spec.linked
  | resolveUp name => exact (h.resolveUp_leads name).choose_spec.linked

/-- A frame that stays keeps what it takes along. -/
theorem added (hs : s.Step t) (h : s.Linked) {height : Nat} {f g : StaticFrame} (hf : s.frame? height = some f)
    (hg : t.frame? height = some g) : f.captures <+: g.captures := by
  cases hs with
  | declare name => exact (h.declare name).added hf hg
  | undeclare name => exact (h.undeclare name).added hf hg
  | resolve name => exact (h.resolve_leads name).choose_spec.added hf hg
  | resolveUp name => exact (h.resolveUp_leads name).choose_spec.added hf hg
  | push =>
    have hlt : height < s.frames.reverse.length := (List.getElem?_eq_some_iff.1 hf).1
    rw [frame?, show s.push.frames = .empty :: s.frames from rfl, List.reverse_cons, List.getElem?_append_left hlt] at hg
    cases hf.symm.trans hg
    exact List.prefix_refl _
  | pop hne =>
    obtain ⟨inner, outer⟩ := s
    cases outer with
    | nil => exact absurd rfl hne
    | cons f' fs =>
      have hlt : height < (f' :: fs).reverse.length := (List.getElem?_eq_some_iff.1 hg).1
      rw [frame?, show frames ⟨inner, f' :: fs⟩ = inner :: f' :: fs from rfl, List.reverse_cons,
        List.getElem?_append_left hlt] at hf
      cases hf.symm.trans hg
      exact List.prefix_refl _

end Step

/-- Every scope that is reached has its records in order. -/
theorem Reached.linked {names : List String} (h : Reached names s) : s.Linked := by
  induction h with
  | ofGlobals => exact .ofGlobals names
  | step _ hs ih => exact hs.linked ih

/-- From a top level on, names are looked up lexically, whatever was looked up, bound and forgotten before. -/
theorem Reached.findsLexically {names : List String} (h : Reached names s) : s.FindsLexically := by
  have hlinked := h.linked
  have hdepth := s.depth_eq
  -- A name of a frame around is looked up alike from the innermost frame and from the one around it.
  have htaken : ∀ name b, s.HighestBinding name (s.depth - 1) b → ∃ t, s.captureInner name = some t ∧
      s.captured name = @Ref.captured (s.depth - 1 - b) name ∧ t.TakesFrom name b := by
    intro name b hb
    cases hc : s.captureInner name with
    | none =>
      obtain ⟨f, hf, hlocal⟩ := hb.bound
      have hnone := (captureInner_eq_none_iff hlinked).1 hc f (exists_frame?_iff.2 ⟨b, hb.lt, hf⟩)
      rw [hnone] at hlocal
      cases hlocal
    | some t => exact ⟨t, rfl, hlinked.captureInner_takesFrom hc hb⟩
  refine ⟨fun name => ?_, fun name b hb hinner => ?_, fun name b hb hinner => ?_, fun name => ?_, fun name b hb => ?_,
    fun name other => ?_, fun height f hf => ?_, fun t hs height f g hf hg => hs.added hlinked hf hg, fun f hf => ?_⟩
  · rw [hlinked.resolve_eq_none_iff, forall_frame?_iff]
  · obtain ⟨f, hf, hlocal⟩ := hb.bound
    rw [show b = s.depth - 1 by omega, frame?_innermost] at hf
    cases hf
    rw [resolve, if_pos hlocal]
  · have hlocal : s.inner.hasLocal name = false := hb.above _ _ (by have := hb.lt; omega) (by omega) frame?_innermost
    have hb' : s.HighestBinding name (s.depth - 1) b :=
      ⟨by have := hb.lt; omega, hb.bound, fun h f hlt hlt' => hb.above h f hlt (by omega)⟩
    obtain ⟨t, ht, href, htakes⟩ := htaken name b hb'
    rw [resolve, if_neg (by simp [hlocal]), ← href]
    split
    · rename_i hcapture
      exact ⟨rfl, hlinked.takesFrom hcapture hb'.level⟩
    · rw [ht]
      exact ⟨rfl, htakes⟩
  · rw [resolveUp_fst, Option.map_eq_none_iff, captureInner_eq_none_iff hlinked]
    simp only [exists_frame?_iff]
    exact ⟨fun hall h f hlt hf => hall f ⟨h, hlt, hf⟩, fun hall f ⟨h, hlt, hf⟩ => hall h f hlt hf⟩
  · obtain ⟨t, ht, href, htakes⟩ := htaken name b hb
    unfold resolveUp
    rw [ht, ← href]
    exact ⟨rfl, htakes⟩
  · rw [resolveUp_fst]
    cases s.captureInner name <;> simp [captured]
  · exact Linked.nodup_of_mem hlinked f (List.mem_of_getElem? (frame?_eq_some.1 hf).2)
  · refine Linked.captures_outermost hlinked f ?_
    rwa [List.getLast?_eq_head?_reverse, List.head?_eq_getElem?]

/-- The scope of a lambda inside a lambda that took a name along before it bound the name itself. -/
def shadowing : Scope := ((((ofGlobals ["x"]).push.resolve "x").2.declare "x").push.resolve "x").2

/-- A frame takes along a name that it binds, and the frame inside takes along the binding. -/
theorem Reached.findsLexically_shadowing : Reached ["x"] shadowing ∧ shadowing.FindsLexically ∧
    (shadowing.frame? 1).map (fun f => (f.locals, f.captures)) = some (["x"], [⟨"x", .local⟩]) ∧
    (shadowing.resolve "x").1 = some (@Ref.captured 1 "x") ∧
    (shadowing.frame? 2).map (·.captures) = some [⟨"x", .local⟩] := by
  have h : Reached ["x"] shadowing :=
    .step (.step (.step (.step (.step .ofGlobals (.push _)) (.resolve _ "x")) (.declare _ "x")) (.push _)) (.resolve _ "x")
  exact ⟨h, h.findsLexically, by decide, by decide, by decide⟩

end Scope

end DualShell
