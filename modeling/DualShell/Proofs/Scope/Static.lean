import DualShell.Compile.Scope
import DualShell.Proofs.Scope.Mention
import Mathlib.Data.List.Forall2

/-!
# The frames of a scope fit together

While a program is resolved, every frame records where the frame around it will find the cells that a closure takes
along. The records fit together (`Scope.Linked`): a name recorded as bound in the frame around is bound there, and one
recorded as taken from further out was taken along by the frame around too, and is bound first in the frame of the
recorded level. Looking a name up keeps this, because it records a capture in every frame on its way
(`Scope.Linked.reach`), and only the innermost frame, whose names no record speaks of, gains or loses names.
-/

namespace DualShell

/-! ## Frames that grew -/

/-- A frame after names were looked up through it: it binds what it bound, and took more along. -/
structure StaticFrame.GrewTo (f g : StaticFrame) : Prop where
  locals : g.locals = f.locals
  captures : f.captures <+: g.captures

theorem StaticFrame.GrewTo.refl (f : StaticFrame) : f.GrewTo f := ⟨rfl, List.prefix_refl _⟩

theorem StaticFrame.GrewTo.trans {f g h : StaticFrame} (hfg : f.GrewTo g) (hgh : g.GrewTo h) : f.GrewTo h :=
  ⟨hgh.locals.trans hfg.locals, hfg.captures.trans hgh.captures⟩

/-- A frame that grew has the same local names. -/
theorem StaticFrame.GrewTo.hasLocal {f g : StaticFrame} (h : f.GrewTo g) (name : String) :
    g.hasLocal name = f.hasLocal name := by
  rw [StaticFrame.hasLocal, h.locals, StaticFrame.hasLocal]

/-- A frame takes a name along if it is among its captures. -/
theorem StaticFrame.hasCapture_iff {f : StaticFrame} {name : String} :
    f.hasCapture name = true ↔ ∃ c ∈ f.captures, c.name = name := by
  simp [StaticFrame.hasCapture]

/-- A frame that grew takes along what it took along. -/
theorem StaticFrame.GrewTo.hasCapture {f g : StaticFrame} (h : f.GrewTo g) {name : String} (hc : f.hasCapture name = true) :
    g.hasCapture name = true := by
  obtain ⟨c, hmem, rfl⟩ := hasCapture_iff.1 hc
  exact hasCapture_iff.2 ⟨c, h.captures.subset hmem, rfl⟩

/-- Frames from the inside out, each of which grew. -/
abbrev FramesGrew (fs gs : List StaticFrame) : Prop := List.Forall₂ StaticFrame.GrewTo fs gs

theorem FramesGrew.refl (fs : List StaticFrame) : FramesGrew fs fs := List.forall₂_same.2 fun f _ => .refl f

theorem FramesGrew.trans {fs gs hs : List StaticFrame} (h : FramesGrew fs gs) (h' : FramesGrew gs hs) :
    FramesGrew fs hs := by
  induction h generalizing hs with
  | nil => exact h'
  | cons hfg _ ih =>
    cases h' with
    | cons hgh h' => exact .cons (hfg.trans hgh) (ih h')

/-- Growing does not change where a name is bound first. -/
theorem FramesGrew.level {fs gs : List StaticFrame} (h : FramesGrew fs gs) (name : String) :
    Scope.level name gs = Scope.level name fs := by
  induction h with
  | nil => rfl
  | cons hfg _ ih =>
    simp only [Scope.level, List.findIdx_cons, hfg.hasLocal] at ih ⊢
    rw [ih]

/-- Growing binds no name that was not bound. -/
theorem FramesGrew.bound {fs gs : List StaticFrame} (h : FramesGrew fs gs) {name : String}
    (hg : ∃ g ∈ gs, g.hasLocal name = true) : ∃ f ∈ fs, f.hasLocal name = true := by
  induction h with
  | nil => exact hg
  | cons hfg _ ih =>
    obtain ⟨g, hmem, hlocal⟩ := hg
    rcases List.mem_cons.1 hmem with rfl | hmem
    · exact ⟨_, List.mem_cons_self, (hfg.hasLocal name).symm.trans hlocal⟩
    · obtain ⟨f, hf, hlocal⟩ := ih ⟨g, hmem, hlocal⟩
      exact ⟨f, List.mem_cons_of_mem _ hf, hlocal⟩

/-! ## Records that fit -/

/-- A recorded capture fits the frames around: the nearest one binds the name or takes it along in turn, and the record
has the level of the first one that binds it. -/
inductive Capture.LinkedTo (c : Capture) : List StaticFrame → Prop
  | here {g : StaticFrame} {outer : List StaticFrame} (source : c.source = .local) (bound : g.hasLocal c.name = true) :
      c.LinkedTo (g :: outer)
  | further {g : StaticFrame} {outer : List StaticFrame}
      (source : c.source = @CaptureSource.captured (Scope.level c.name (g :: outer)))
      (unbound : g.hasLocal c.name = false) (taken : g.hasCapture c.name = true) : c.LinkedTo (g :: outer)

/-- A record that fits has the level of its name. -/
theorem Capture.LinkedTo.level {c : Capture} {fs : List StaticFrame} (h : c.LinkedTo fs) :
    c.source.level = Scope.level c.name fs := by
  cases h with
  | here source bound =>
    rw [source]
    simp [CaptureSource.level, Scope.level, List.findIdx_cons, bound]
  | further source unbound taken =>
    rw [source]
    rfl

/-- A record that fits still does when the frames grow. -/
theorem Capture.LinkedTo.grow {c : Capture} {fs gs : List StaticFrame} (h : c.LinkedTo fs) (hg : FramesGrew fs gs) :
    c.LinkedTo gs := by
  cases h with
  | here source bound =>
    cases hg with
    | cons hfg _ => exact .here source ((hfg.hasLocal _).trans bound)
  | further source unbound taken =>
    have hlevel := hg.level c.name
    cases hg with
    | cons hfg _ =>
      rw [← hlevel] at source
      exact .further source ((hfg.hasLocal _).trans unbound) (hfg.hasCapture taken)

/-- What a frame takes along fits the frames around it, and it takes no name along twice. -/
structure StaticFrame.LinkedTo (f : StaticFrame) (outer : List StaticFrame) : Prop where
  nodup : (f.captures.map (·.name)).Nodup
  captures : ∀ c ∈ f.captures, c.LinkedTo outer

/-- A frame whose records fit is one when the frames around grow. -/
theorem StaticFrame.LinkedTo.grow {f : StaticFrame} {fs gs : List StaticFrame} (h : f.LinkedTo fs)
    (hg : FramesGrew fs gs) : f.LinkedTo gs :=
  ⟨h.nodup, fun c hc => (h.captures c hc).grow hg⟩

/-- A name that is taken along for the first time. -/
theorem StaticFrame.LinkedTo.addCapture {f : StaticFrame} {outer : List StaticFrame} (h : f.LinkedTo outer) {name : String}
    {source : CaptureSource} (hnew : f.hasCapture name = false) (hc : Capture.LinkedTo ⟨name, source⟩ outer) :
    (f.addCapture name source).LinkedTo outer where
  nodup := by
    simp only [StaticFrame.addCapture, List.map_append, List.map_cons, List.map_nil]
    refine List.nodup_append.2 ⟨h.nodup, by simp, fun a ha b hb hab => ?_⟩
    cases List.mem_singleton.1 hb
    obtain ⟨c, hc, rfl⟩ := List.mem_map.1 ha
    rw [StaticFrame.hasCapture_iff.2 ⟨c, hc, hab⟩] at hnew
    nomatch hnew
  captures c' hc' := by
    rcases List.mem_append.1 hc' with hc' | hc'
    · exact h.captures c' hc'
    · cases List.mem_singleton.1 hc'
      exact hc

/-- To take something along makes a frame grow. -/
theorem StaticFrame.grewTo_addCapture (f : StaticFrame) (name : String) (source : CaptureSource) :
    f.GrewTo (f.addCapture name source) :=
  ⟨rfl, List.prefix_append _ _⟩

/-- Frames from the inside out that fit together. -/
def FramesLinked : List StaticFrame → Prop
  | [] => True
  | f :: fs => f.LinkedTo fs ∧ FramesLinked fs

/-- The frames of a scope fit together. -/
def Scope.Linked (s : Scope) : Prop := FramesLinked s.frames

/-- A lookup keeps frames fitting together, and what it finds fits the frames it leaves. -/
theorem FramesLinked.reach {name : String} {fs gs : List StaticFrame} {source : CaptureSource} (h : FramesLinked fs)
    (hr : Scope.reach name fs = some (source, gs)) : FramesLinked gs ∧ FramesGrew fs gs ∧
    Capture.LinkedTo ⟨name, source⟩ gs := by
  induction fs generalizing source gs with
  | nil => nomatch hr
  | cons f fs ih =>
    unfold Scope.reach at hr
    split at hr
    · rename_i hlocal
      cases hr
      exact ⟨h, .refl _, .here rfl hlocal⟩
    · rename_i hlocal
      have hlocal := Bool.eq_false_iff.2 hlocal
      dsimp only at hr
      split at hr
      · rename_i hcapture
        cases hr
        exact ⟨h, .refl _, .further rfl hlocal hcapture⟩
      · rename_i hcapture
        have hcapture := Bool.eq_false_iff.2 hcapture
        split at hr
        · nomatch hr
        · rename_i inner gs' hinner
          cases hr
          obtain ⟨hgs, hgrew, hc⟩ := ih h.2 hinner
          have hf := (h.1.grow hgrew).addCapture hcapture hc
          have hall : FramesGrew (f :: fs) (f.addCapture name inner :: gs') := .cons (f.grewTo_addCapture _ _) hgrew
          refine ⟨⟨hf, hgs⟩, hall, .further ?_ hlocal ?_⟩
          · rw [hall.level]
          · exact StaticFrame.hasCapture_iff.2 ⟨⟨name, inner⟩, List.mem_append_right _ List.mem_cons_self, rfl⟩

/-! ## Steps of a resolution -/

/-- What is reached for is there: a name of the frame is bound in it, or was deleted along the way; a name from outside
was taken along, at its level; and the lambdas made fit. -/
def Mention.BoundIn (f : StaticFrame) (ms : List Mention) : Mention → Prop
  | .local name => f.hasLocal name = true ∨ .drop name ∈ ms
  | .make op => op.Linked
  | m => m.Within f.captures

/-- What resolving a piece of program that reaches for `ms` does to the scope. -/
structure Scope.Leads (ms : List Mention) (s t : Scope) : Prop where
  linked : t.Linked
  outer : FramesGrew s.outer t.outer
  captures : s.inner.captures <+: t.inner.captures
  locals : ∀ name, s.inner.hasLocal name = true → t.inner.hasLocal name = true ∨ .drop name ∈ ms
  bound : ∀ m ∈ ms, m.BoundIn t.inner ms

namespace Scope.Leads

/-- Where nothing is mentioned the scope stays. -/
theorem nil {s : Scope} (h : s.Linked) : Leads [] s s :=
  ⟨h, .refl _, List.prefix_refl _, fun _ h => .inl h, fun _ hm => nomatch hm⟩

/-- One piece after another. -/
theorem append {s t u : Scope} {ms ns : List Mention} (h : Leads ms s t) (h' : Leads ns t u) : Leads (ms ++ ns) s u where
  linked := h'.linked
  outer := h.outer.trans h'.outer
  captures := h.captures.trans h'.captures
  locals name hn := by
    rcases h.locals name hn with hn | hd
    · exact (h'.locals name hn).imp_right (List.mem_append_right _)
    · exact .inr (List.mem_append_left _ hd)
  bound m hm := by
    rcases List.mem_append.1 hm with hm | hm
    · have hb := h.bound m hm
      cases m with
      | «local» name =>
        rcases hb with hb | hd
        · exact (h'.locals name hb).imp_right (List.mem_append_right _)
        · exact .inr (List.mem_append_left _ hd)
      | taken name level =>
        obtain ⟨c, hc, hname, hlevel⟩ := hb
        exact ⟨c, h'.captures.subset hc, hname, hlevel⟩
      | fixed name => exact hb
      | drop name => trivial
      | change ref => exact hb
      | make op => exact hb
    · have hb := h'.bound m hm
      cases m with
      | «local» name => exact hb.imp_right (List.mem_append_right _)
      | taken name level => exact hb
      | fixed name => exact hb
      | drop name => trivial
      | change ref => exact hb
      | make op => exact hb

/-- What counts as mentioned can be chosen smaller, and what counts as deleted larger. -/
theorem sub {s t : Scope} {ms ns : List Mention} (h : Leads ms s t) (hm : ∀ m ∈ ns, m ∈ ms ∨ ∃ name, m = .drop name)
    (hd : ∀ name, .drop name ∈ ms → .drop name ∈ ns) : Leads ns s t where
  linked := h.linked
  outer := h.outer
  captures := h.captures
  locals name hn := (h.locals name hn).imp_right (hd name)
  bound m hmem := by
    rcases hm m hmem with hmem | ⟨name, rfl⟩
    · have hb := h.bound m hmem
      cases m with
      | «local» name => exact hb.imp_right (hd name)
      | taken name level => exact hb
      | fixed name => exact hb
      | drop name => trivial
      | change ref => exact hb
      | make op => exact hb
    · trivial

end Scope.Leads

namespace StaticFrame

/-- A name that is declared is local. -/
theorem hasLocal_declare_self (f : StaticFrame) (name : String) : (f.declare name).hasLocal name = true := by
  unfold declare
  split
  · assumption
  · simp [hasLocal]

/-- Names that were local still are after a declaration. -/
theorem hasLocal_declare {f : StaticFrame} {name other : String} (h : f.hasLocal other = true) :
    (f.declare name).hasLocal other = true := by
  unfold declare
  split
  · exact h
  · simp only [hasLocal, List.contains_eq_mem, List.mem_append, decide_eq_true_eq] at h ⊢
    exact .inl h

/-- A declaration takes nothing along. -/
theorem captures_declare (f : StaticFrame) (name : String) : (f.declare name).captures = f.captures := by
  unfold declare
  split <;> rfl

/-- Names that were local still are after another one is deleted. -/
theorem hasLocal_undeclare {f : StaticFrame} {name other : String} (h : f.hasLocal other = true) (hne : other ≠ name) :
    (f.undeclare name).hasLocal other = true := by
  simp only [hasLocal, undeclare, List.contains_eq_mem, decide_eq_true_eq, List.mem_filter, bne_iff_ne] at h ⊢
  exact ⟨h, hne⟩

end StaticFrame

namespace Scope.Linked

variable {s t : Scope}

/-- A variable that can be changed. -/
theorem change (h : s.Linked) {ref : Ref} (hw : ref.isWritable = true) : Leads [.change ref] s s where
  linked := h
  outer := .refl _
  captures := List.prefix_refl _
  locals _ := .inl
  bound m hm := by
    cases List.mem_singleton.1 hm
    exact hw

/-- A fixed variable is always there. -/
theorem fixed (h : s.Linked) {name : String} (hname : isFixedVariable name = true) : Leads [.fixed name] s s where
  linked := h
  outer := .refl _
  captures := List.prefix_refl _
  locals _ := .inl
  bound m hm := by
    cases List.mem_singleton.1 hm
    exact hname

/-- A name that is bound. -/
theorem isLocal (h : s.Linked) {name : String} (hlocal : s.isLocal name = true) : Leads [.local name] s s where
  linked := h
  outer := .refl _
  captures := List.prefix_refl _
  locals _ := .inl
  bound m hm := by
    cases List.mem_singleton.1 hm
    exact .inl hlocal

/-- A declaration leads on by the name it mentions. -/
theorem declare (h : s.Linked) (name : String) : Leads [.local name] s (s.declare name) where
  linked := ⟨⟨by rw [Scope.declare, StaticFrame.captures_declare]; exact h.1.nodup,
    fun c hc => h.1.captures c (by rwa [Scope.declare, StaticFrame.captures_declare] at hc)⟩, h.2⟩
  outer := .refl _
  captures := (StaticFrame.captures_declare s.inner name).symm ▸ List.prefix_refl _
  locals other hn := .inl (StaticFrame.hasLocal_declare hn)
  bound m hm := by
    cases List.mem_singleton.1 hm
    exact .inl (s.inner.hasLocal_declare_self name)

/-- A deletion leads on by the name it drops. -/
theorem undeclare (h : s.Linked) (name : String) : Leads [.drop name] s (s.undeclare name) where
  linked := ⟨⟨h.1.nodup, h.1.captures⟩, h.2⟩
  outer := .refl _
  captures := List.prefix_refl _
  locals other hn := by
    by_cases hne : other = name
    · exact .inr (by rw [hne]; exact List.mem_cons_self)
    · exact .inl (StaticFrame.hasLocal_undeclare hn hne)
  bound m hm := by
    cases List.mem_singleton.1 hm
    trivial

/-- A name that the innermost frame takes along is within its captures, at the level of the reference. -/
theorem within_captured (h : s.Linked) {name : String} (hc : s.inner.hasCapture name = true) :
    (Mention.taken name (Scope.level name s.outer + 1)).Within s.inner.captures := by
  obtain ⟨c, hmem, rfl⟩ := StaticFrame.hasCapture_iff.1 hc
  exact ⟨c, hmem, rfl, by rw [(h.1.captures c hmem).level]⟩

/-- A capture leads on by what it mentions. -/
theorem captureInner (h : s.Linked) {name : String} (ht : s.captureInner name = some t) :
    Leads (s.captured name).mentions s t := by
  unfold Scope.captureInner at ht
  split at ht
  · nomatch ht
  · rename_i source outer hr
    obtain ⟨houter, hgrew, hc⟩ := FramesLinked.reach h.2 hr
    have hinner := StaticFrame.LinkedTo.grow h.1 hgrew
    have hbound : ∀ t : Scope, t.Linked → t.outer = outer → t.inner.hasCapture name = true →
        (Mention.taken name (Scope.level name s.outer + 1)).Within t.inner.captures := by
      intro t ht houter hcapture
      have := ht.within_captured hcapture
      rwa [houter, hgrew.level] at this
    cases ht
    split
    · rename_i hcapture
      have hlinked : Scope.Linked ⟨s.inner, outer⟩ := ⟨hinner, houter⟩
      refine ⟨hlinked, hgrew, List.prefix_refl _, fun _ => .inl, fun m hm => ?_⟩
      cases List.mem_singleton.1 hm
      exact hbound _ hlinked rfl hcapture
    · rename_i hcapture
      have hcapture := Bool.eq_false_iff.2 hcapture
      have hlinked : Scope.Linked ⟨s.inner.addCapture name source, outer⟩ := ⟨hinner.addCapture hcapture hc, houter⟩
      refine ⟨hlinked, hgrew, List.prefix_append _ _, fun _ => .inl, fun m hm => ?_⟩
      cases List.mem_singleton.1 hm
      refine hbound _ hlinked rfl (StaticFrame.hasCapture_iff.2 ⟨⟨name, source⟩, ?_, rfl⟩)
      exact List.mem_append_right _ List.mem_cons_self

/-- A look-up from outside the innermost frame leads on by what it mentions. -/
theorem resolveUp (h : s.Linked) {name : String} {ref : Ref} (hr : s.resolveUp name = (some ref, t)) :
    Leads ref.mentions s t := by
  unfold Scope.resolveUp at hr
  split at hr
  · nomatch hr
  · rename_i hc
    cases hr
    exact h.captureInner hc

/-- A lookup finds a name of the frame, or one that the frame takes along from then on. -/
theorem resolve (h : s.Linked) {name : String} {ref : Ref} (hr : s.resolve name = (some ref, t)) :
    Leads ref.mentions s t := by
  unfold Scope.resolve at hr
  split at hr
  · rename_i hlocal
    cases hr
    refine ⟨h, .refl _, List.prefix_refl _, fun _ => .inl, fun m hm => ?_⟩
    cases List.mem_singleton.1 hm
    exact .inl hlocal
  · split at hr
    · rename_i hcapture
      cases hr
      refine ⟨h, .refl _, List.prefix_refl _, fun _ => .inl, fun m hm => ?_⟩
      cases List.mem_singleton.1 hm
      exact h.within_captured hcapture
    · split at hr
      · nomatch hr
      · rename_i hc
        cases hr
        exact h.captureInner hc

/-- What is found is a variable. -/
theorem resolve_isWritable {name : String} {ref : Ref} (hr : s.resolve name = (some ref, t)) : ref.isWritable = true := by
  unfold Scope.resolve at hr
  split at hr
  · cases hr
    rfl
  · split at hr
    · cases hr
      rfl
    · split at hr
      · nomatch hr
      · cases hr
        rfl

/-- A name that is not found leaves the scope as it was. -/
theorem resolve_none {name : String} (hr : s.resolve name = (none, t)) : t = s := by
  unfold Scope.resolve at hr
  split at hr
  · nomatch hr
  · split at hr
    · nomatch hr
    · split at hr
      · cases hr
        rfl
      · nomatch hr

/-- A name that is not found leaves the scope. -/
theorem resolveUp_none {name : String} (hr : s.resolveUp name = (none, t)) : t = s := by
  unfold Scope.resolveUp at hr
  split at hr
  · cases hr
    rfl
  · nomatch hr

/-- A frame that is opened takes nothing along yet. -/
theorem push (h : s.Linked) : s.push.Linked :=
  ⟨⟨List.nodup_nil, fun _ hc => nomatch hc⟩, h⟩

/-- Declarations leave records in order. -/
theorem declareAll (h : s.Linked) (names : List String) : (names.foldl Scope.declare s).Linked := by
  induction names generalizing s with
  | nil => exact h
  | cons name names ih => exact ih (h.declare name).linked

/-- What a frame takes along is within reach of the frame around it. -/
theorem bound_of_captures {f : StaticFrame} {outer : List StaticFrame} {c : Capture} (hf : FramesLinked (f :: outer))
    (hc : c.LinkedTo (f :: outer)) (ms : List Mention) : c.mention.BoundIn f ms := by
  cases hc with
  | here source bound =>
    unfold Capture.mention
    rw [source]
    exact .inl bound
  | further source unbound taken =>
    obtain ⟨c', hc', hname⟩ := StaticFrame.hasCapture_iff.1 taken
    unfold Capture.mention
    rw [source]
    refine ⟨c', hc', hname, ?_⟩
    rw [(hf.1.captures c' hc').level, hname]
    simp [Scope.level, List.findIdx_cons, unbound]

end Scope.Linked

/-- Declarations leave the frames around. -/
theorem Scope.outer_declareAll (names : List String) (s : Scope) : (names.foldl Scope.declare s).outer = s.outer := by
  induction names generalizing s with
  | nil => rfl
  | cons name names ih => exact ih (s.declare name)

/-- Opening a frame for a lambda, resolving its body and closing the frame again: the lambda fits, and what it takes along is
within reach of the frame that makes it. -/
theorem Scope.Leads.close {s t : Scope} {names : List String} {op : Code.Lambda}
    (hbody : Scope.Leads op.body.mentions (names.foldl Scope.declare s.push) t) (hcaptures : op.captures = t.pop.1) :
    Scope.Leads op.mentions s t.pop.2 := by
  obtain ⟨inner, outer⟩ := t
  have hgrew : FramesGrew (s.inner :: s.outer) outer := by
    have := hbody.outer
    rwa [Scope.outer_declareAll] at this
  cases hgrew with
  | @cons _ f _ fs hf hfs =>
    have hlinked : op.Linked := by
      have hnodup := hbody.linked.1.nodup
      rw [← show op.captures = inner.captures from hcaptures] at hnodup
      refine .intro hnodup (fun m hm => ?_) fun inside hmem => hbody.bound _ hmem
      have hb := hbody.bound m hm
      cases m with
      | taken name level =>
        rw [hcaptures]
        exact hb
      | fixed name => exact hb
      | change ref => exact hb
      | _ => trivial
    refine ⟨hbody.linked.2, hfs, hf.captures, fun name hn => .inl ((hf.hasLocal name).trans hn), fun m hm => ?_⟩
    rcases List.mem_cons.1 hm with rfl | hm
    · exact hlinked
    · obtain ⟨c, hc, rfl⟩ := List.mem_map.1 hm
      rw [hcaptures] at hc
      exact Scope.Linked.bound_of_captures hbody.linked.2 (hbody.linked.1.captures c hc) _

end DualShell
