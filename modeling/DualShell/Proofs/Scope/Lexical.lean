import Mathlib
import DualShell.Proofs.Scope.History

/-!
# Lexical scoping

While a program is resolved, a lookup finds the first frame, from the inside out, that binds a name
(`Scope.Visited.resolve_first`). While programs run, code is led to the cell that the activation of that frame holds
under the name (`History.lexical`), and no variable is looked for in vain but a member that a namespace lacks
(`History.defined`). Both hold of every history: of programs one after another, of modules they load, of closures kept
from earlier ones, of pipelines that run beside, and of all orders in which these take turns.
-/

namespace DualShell

/-! ## Lookups in a scope -/

namespace Scope

/-- The frame at a level, counted from the inside out, binds the name, and none from `start` up to it does. -/
structure FirstBinding (s : Scope) (start : Nat) (name : String) (level : Nat) : Prop where
  reached : start ≤ level
  bound : ∃ f, s.frames[level]? = some f ∧ f.hasLocal name = true
  unbound : ∀ (i : Nat) (f : StaticFrame), start ≤ i → i < level → s.frames[i]? = some f → f.hasLocal name = false

/-- The scopes that resolution of programs goes through, from that of a top level on. -/
inductive Visited : Scope → Prop
  | top (names : List String) : Visited (.ofGlobals names)
  | resolve {s : Scope} (name : String) (h : s.Visited) : Visited (s.resolve name).2
  | resolveUp {s : Scope} (name : String) (h : s.Visited) : Visited (s.resolveUp name).2
  | declare {s : Scope} (name : String) (h : s.Visited) : Visited (s.declare name)
  | undeclare {s : Scope} (name : String) (h : s.Visited) : Visited (s.undeclare name)
  | push {s : Scope} (h : s.Visited) : Visited s.push
  | pop {s : Scope} (h : s.Visited) : Visited s.pop.2

/-- A scope that can be visited has its records in order. -/
theorem Visited.linked {s : Scope} (h : s.Visited) : s.Linked := by
  induction h with
  | top names => exact .ofGlobals names
  | @resolve s name _ ih =>
    rcases hr : s.resolve name with ⟨ref, t⟩
    cases ref with
    | none => exact Linked.resolve_none hr ▸ ih
    | some ref => exact (Linked.resolve ih hr).linked
  | @resolveUp s name _ ih =>
    rcases hr : s.resolveUp name with ⟨ref, t⟩
    cases ref with
    | none => exact Linked.resolveUp_none hr ▸ ih
    | some ref => exact (Linked.resolveUp ih hr).linked
  | declare name _ ih => exact (Linked.declare ih name).linked
  | undeclare name _ ih => exact (Linked.undeclare ih name).linked
  | push _ ih => exact ih.push
  | @pop s _ ih =>
    obtain ⟨inner, outer⟩ := s
    cases outer with
    | nil => exact ⟨⟨List.nodup_nil, fun _ hc => nomatch hc⟩, trivial⟩
    | cons f fs => exact ih.2

/-- What frames that fit together take along is bound by one of those around. -/
theorem bound_of_linkedTo {c : Capture} : {fs : List StaticFrame} → FramesLinked fs → c.LinkedTo fs →
    ∃ f ∈ fs, f.hasLocal c.name = true
  | g :: _, _, .here _ hbound => ⟨g, List.mem_cons_self, hbound⟩
  | _ :: _, hfs, .further _ _ htaken => by
    obtain ⟨c', hc', hname⟩ := StaticFrame.hasCapture_iff.1 htaken
    obtain ⟨f, hf, hlocal⟩ := bound_of_linkedTo hfs.2 (hfs.1.captures c' hc')
    exact ⟨f, List.mem_cons_of_mem _ hf, hname ▸ hlocal⟩

/-- The recorded level of a name that a frame around binds is that of the first one that does. -/
theorem firstBinding_of_mem {s : Scope} {name : String} (h : ∃ f ∈ s.outer, f.hasLocal name = true) :
    s.FirstBinding 1 name (level name s.outer + 1) := by
  have hlt : s.outer.findIdx (·.hasLocal name) < s.outer.length := List.findIdx_lt_length.2 h
  refine ⟨Nat.le_add_left 1 _, ⟨s.outer[s.outer.findIdx (·.hasLocal name)], ?_, List.findIdx_getElem (w := hlt)⟩,
    fun i f hi hlevel hf => ?_⟩
  · simp [frames, level, hlt]
  · obtain ⟨i, rfl⟩ := Nat.exists_eq_add_of_le' hi
    have hi' : i < s.outer.findIdx (·.hasLocal name) := Nat.lt_of_succ_lt_succ hlevel
    simp only [frames, List.getElem?_cons_succ, List.getElem?_eq_getElem (Nat.lt_trans hi' hlt), Option.some.injEq] at hf
    subst hf
    exact List.not_of_lt_findIdx hi'

/-- A name that the innermost frame takes along, or comes to take along, is bound by a frame around it. -/
theorem Linked.bound_of_capture {s : Scope} (h : s.Linked) {name : String} (hc : s.inner.hasCapture name = true) :
    ∃ f ∈ s.outer, f.hasLocal name = true := by
  obtain ⟨c, hmem, rfl⟩ := StaticFrame.hasCapture_iff.1 hc
  exact bound_of_linkedTo h.2 (h.1.captures c hmem)

/-- What is taken along is local to one of the frames around. -/
theorem Linked.bound_of_captureInner {s t : Scope} (h : s.Linked) {name : String} (ht : s.captureInner name = some t) :
    ∃ f ∈ s.outer, f.hasLocal name = true := by
  unfold Scope.captureInner at ht
  split at ht
  · nomatch ht
  · rename_i source outer hr
    obtain ⟨houter, hgrew, hc⟩ := FramesLinked.reach h.2 hr
    exact hgrew.bound (bound_of_linkedTo houter hc)

/-- A lookup finds the innermost frame that binds the name. -/
theorem Visited.resolve_first {s t : Scope} (h : s.Visited) {name : String} {ref : Ref}
    (hr : s.resolve name = (some ref, t)) :
    ∃ level, s.FirstBinding 0 name level ∧ (level = 0 ∧ ref = .local name ∨ 0 < level ∧ ref = @Ref.captured level name) := by
  have hfirst : s.inner.hasLocal name = false → (∃ f ∈ s.outer, f.hasLocal name = true) →
      s.FirstBinding 0 name (level name s.outer + 1) := by
    intro hlocal hbound
    obtain ⟨hreached, hbound, hunbound⟩ := firstBinding_of_mem hbound
    refine ⟨Nat.zero_le _, hbound, fun i f _ hi hf => ?_⟩
    cases i with
    | zero => cases hf; exact hlocal
    | succ i => exact hunbound (i + 1) f (Nat.le_add_left 1 i) hi hf
  unfold Scope.resolve at hr
  split at hr
  · rename_i hlocal
    cases hr
    exact ⟨0, ⟨Nat.le_refl 0, ⟨s.inner, rfl, hlocal⟩, fun i _ _ hi => absurd hi (Nat.not_lt_zero i)⟩, .inl ⟨rfl, rfl⟩⟩
  · rename_i hlocal
    have hlocal := Bool.eq_false_iff.2 hlocal
    split at hr
    · rename_i hcapture
      cases hr
      exact ⟨_, hfirst hlocal (h.linked.bound_of_capture hcapture), .inr ⟨Nat.succ_pos _, rfl⟩⟩
    · split at hr
      · nomatch hr
      · rename_i ht
        cases hr
        exact ⟨_, hfirst hlocal (h.linked.bound_of_captureInner ht), .inr ⟨Nat.succ_pos _, rfl⟩⟩

/-- A lookup that starts one frame out finds the innermost frame from there on that binds the name. -/
theorem Visited.resolveUp_first {s t : Scope} (h : s.Visited) {name : String} {ref : Ref}
    (hr : s.resolveUp name = (some ref, t)) :
    ∃ level, s.FirstBinding 1 name level ∧ ref = @Ref.captured level name := by
  unfold Scope.resolveUp at hr
  split at hr
  · nomatch hr
  · rename_i ht
    cases hr
    exact ⟨_, firstBinding_of_mem (h.linked.bound_of_captureInner ht), rfl⟩

end Scope

/-! ## Variables of running code -/

/-- Where code is led when it reaches for variables, in the course of the deeds. -/
structure LexicalScoping (ds : List Deed) : Prop where
  /-- A name taken from outside leads to a cell that was taken along. It is the one that the frame so many homes out
  holds under the name, unless the name was dropped there. -/
  taken : ∀ {earlier later who w f captures name level access x w'},
    ds = earlier ++ .answered who w (.taken f captures name level access) x w' :: later →
    ∃ c g, x = some c ∧ w.store.ancestor? f level = some g ∧ (¬Unbound earlier g name → w.store.lookup? g name = some c)
  /-- A name of the running activation leads to the cell of its own frame. -/
  own : ∀ {who w f name access c w'}, .answered who w (.cell f name access) c w' ∈ ds → w'.store.lookup? f name = some c
  /-- Code is led to one cell from two places exactly if they are about one name of one frame. -/
  shared : ∀ {d d' g g' n n' c c'}, d ∈ ds → d' ∈ ds → d.Uses g n c → d'.Uses g' n' c' → ¬Unbound ds g n →
    ¬Unbound ds g' n' → (c = c' ↔ g = g' ∧ n = n')
  /-- An activation has a frame that there was not before, and its home is the frame that its closure was made in. -/
  fresh : ∀ {who w home vars imports f w'}, .answered who w (.activate home vars imports) f w' ∈ ds →
    w.store.frames[f]? = none ∧ (w'.store.frames[f]?).map (·.home) = some home

namespace History

variable {ds : List Deed} {p : Pool}

/-- When a request was answered, the machine fitted a layout in which the request was allowed. -/
theorem asked_fits {earlier later : List Deed} {who : TaskId} {w w' : World} {r : Request} {x : r.Response}
    (h : History Made (earlier ++ .answered who w r x w' :: later) p) :
    ∃ G : Layout, w.Fits True G (Unbound earlier) ∧ G.Needs True r ∧ w.perform who r = (some x, w') := by
  obtain ⟨before, next, after, hearlier, hx⟩ := h.asked
  obtain ⟨G, hG⟩ := History.fits True (fun _ _ hv _ => hv) hearlier
  have htask : G.Allows True (.request r next) := hG.tasks (who, .request r next) (by simp)
  exact ⟨G, hG.world, htask.1, hx⟩

/-- Lookups find the first frame that binds a name, and running code is led to the cell of the activation of that frame. -/
theorem lexical (h : History Made ds p) :
    (∀ {s t : Scope} {name : String} {ref : Ref}, s.Visited → s.resolve name = (some ref, t) →
      ∃ level, s.FirstBinding 0 name level ∧
      (level = 0 ∧ ref = .local name ∨ 0 < level ∧ ref = @Ref.captured level name)) ∧
    (∀ {s t : Scope} {name : String} {ref : Ref}, s.Visited → s.resolveUp name = (some ref, t) →
      ∃ level, s.FirstBinding 1 name level ∧ ref = @Ref.captured level name) ∧
    LexicalScoping ds := by
  refine ⟨fun hs hr => hs.resolve_first hr, fun hs hr => hs.resolveUp_first hr, ?_, ?_, ?_, ?_⟩
  · rintro earlier later who w f captures name level access x w' rfl
    obtain ⟨G, hw, hneeds, hx⟩ := h.asked_fits
    obtain ⟨-, c, g, hc, hg, hslot⟩ := hneeds trivial
    cases hx
    exact ⟨c, g, hc, hw.store.ancestor? f level ▸ hg, fun hgone => (hw.store.kept hslot).resolve_left hgone⟩
  · intro who w f name access c w' hd
    obtain ⟨earlier, later, rfl⟩ := List.append_of_mem hd
    obtain ⟨G, hw, hneeds, hx⟩ := h.asked_fits
    obtain ⟨G', -, -, -, -, hlookup⟩ := hw.store.ensure (show G.binds f name from hneeds)
    cases hx
    exact hlookup
  · intro d d' g g' n n' c c' hd hd' hu hu' hgone hgone'
    obtain ⟨G, hG⟩ := History.fits True (fun _ _ hv _ => hv) h
    have hslot := hG.uses trivial d hd g n c hu
    have hslot' := hG.uses trivial d' hd' g' n' c' hu'
    constructor
    · rintro rfl
      have heq := Option.some.inj (hslot.symm.trans hslot')
      exact ⟨congrArg Prod.fst heq, congrArg Prod.snd heq⟩
    · rintro ⟨rfl, rfl⟩
      have hc := (hG.world.store.kept hslot).resolve_left hgone
      have hc' := (hG.world.store.kept hslot').resolve_left hgone'
      exact Option.some.inj (hc.symm.trans hc')
  · intro who w home vars imports f w' hd
    obtain ⟨earlier, later, rfl⟩ := List.append_of_mem hd
    obtain ⟨G, hw, hneeds, hx⟩ := h.asked_fits
    obtain ⟨G', htells, -, -, hw'⟩ := hw.perform who hneeds hx
    refine ⟨?_, (hw'.store.home f).symm.trans htells.2.2.1⟩
    cases hx
    exact Array.getElem?_eq_none (Nat.le_refl _)

/-- The program `x = outer; f = { put $x; x = changed }; $f; put $x`. -/
def sharing : List Source.Body :=
  [Sample.assign "x" (.bare "outer"),
    Sample.assign "f" (Sample.lambda [Sample.command (.bare "put") [Sample.value "x"], Sample.assign "x" (.bare "changed")]),
    Sample.command (Sample.value "f") [], Sample.command (.bare "put") [Sample.value "x"]]

/-- A closure reads and changes the variable of the activation that made it. -/
theorem lexical_sharing : ∃ ds, History Made ds ⟨[], (Sample.run Sample.machine sharing).2⟩ ∧ LexicalScoping ds ∧
    Sample.texts (Sample.run Sample.machine sharing).1 = [some "outer", some "changed"] := by
  obtain ⟨ds, h⟩ := Sample.go (Sample.start Made) sharing
  exact ⟨[] ++ ds, h, h.lexical.2.2, by cbv⟩

/-! ## Variables that are missing -/

/-- Any closure may be found in values, and failed lookups of names that were looked for in vain in a namespace. -/
def blame (ds : List Deed) : Quality := ⟨fun _ => True, Missed ds⟩

/-- No variable is looked for in vain, but members of namespaces. A name taken from outside is always there, and reached
for only in the activation of a closure; every fixed variable has a value. So no failure, whether a task ended with it
or it is held anywhere, is that of a lookup, except of a member that was looked for in vain before. -/
theorem defined (h : History Made ds p) :
    (∀ {who w f captures name level access x w'}, .answered who w (.taken f captures name level access) x w' ∈ ds →
      (∃ c, x = some c) ∧ ∃ home, (w.store.frames[f]?).map (·.home) = some (some home)) ∧
    (∀ {who w name x w'}, .answered who w (.fixed name) x w' ∈ ds → ∃ v, x = some v) ∧
    (∀ who o, .ended who o ∈ ds → Outcome.Sound (blame ds) o) ∧ p.world.Sound (blame ds) := by
  refine ⟨?_, ?_, ?_⟩
  · intro who w f captures name level access x w' hd
    obtain ⟨earlier, later, rfl⟩ := List.append_of_mem hd
    obtain ⟨G, hw, hneeds, hx⟩ := h.asked_fits
    obtain ⟨hlevel, c, g, hc, hg, -⟩ := hneeds trivial
    cases hx
    refine ⟨⟨c, hc⟩, ?_⟩
    obtain ⟨level, rfl⟩ := Nat.exists_eq_add_of_lt hlevel
    simp only [Nat.zero_add, Layout.ancestor?] at hg
    split at hg
    · rename_i home hhome
      exact ⟨home, (hw.store.home f).symm.trans hhome⟩
    · cases hg
  · intro who w name x w' hd
    obtain ⟨earlier, later, rfl⟩ := List.append_of_mem hd
    obtain ⟨G, -, hneeds, hx⟩ := h.asked_fits
    cases hx
    exact Option.ne_none_iff_exists'.1 (fixedValue?_ne_none (hneeds trivial))
  · obtain ⟨G, hG⟩ := History.fits True (fun _ _ hv _ => hv) h
    have hle : (G.quality True).Le (blame ds) := ⟨fun _ _ => trivial, fun n hn => hG.missing n (hn trivial)⟩
    exact ⟨fun who o ho => (hG.ended who o ho).mono hle, hG.world.sound.mono hle⟩

/-- The program `x = kept; f = { put $x }; del x; $f`. -/
def deleting : List Source.Body :=
  [Sample.assign "x" (.bare "kept"), Sample.assign "f" (Sample.lambda [Sample.command (.bare "put") [Sample.value "x"]]),
    Sample.command (.bare "del") [.bare "x"], Sample.command (Sample.value "f") []]

/-- A closure keeps a variable that was deleted. -/
theorem defined_deleting : ∃ ds, History Made ds ⟨[], (Sample.run Sample.machine deleting).2⟩ ∧
    (Sample.run Sample.machine deleting).2.Sound (blame ds) ∧
    Sample.texts (Sample.run Sample.machine deleting).1 = [some "kept"] := by
  obtain ⟨ds, h⟩ := Sample.go (Sample.start Made) deleting
  exact ⟨[] ++ ds, h, h.defined.2.2.2, by cbv⟩

end History

end DualShell
