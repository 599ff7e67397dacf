import DualShell.Proofs.Assigned.Straight
import DualShell.Proofs.Assigned.Touch
import DualShell.Proofs.Scope.Resolve

/-!
# Straight programs resolve to covered code

Resolution walks a program in the order it runs, with two exceptions: it looks at the variable of an element before the
indices, and it binds a function before its body. So a list of what a straight program does can be kept while it is
resolved, such that the names known at the start cover it and those known at the end are bound after it (`Scope.Flows`).
What is read is known where it is read; where the two orders differ, the program is steady, or it is the function being
defined that is not bound yet.
-/

namespace DualShell

open Compile Source Code

/-- The innermost frame knows the name. -/
def Scope.Holds (s : Scope) (n : String) : Prop := s.inner.hasLocal n = true

/-- From one scope to another, code that is covered by the names of the first and binds those of the second was resolved. -/
structure Scope.Flows (ts : List Touch) (s t : Scope) : Prop where
  linked : t.Linked
  covers : Covers s.Holds ts
  kept : ∀ n, t.Holds n → ts.foldl Touch.after s.Holds n

namespace Scope.Flows

variable {s t u : Scope} {ts us : List Touch}

/-- Nothing that is touched leaves the names as they are. -/
theorem nil (h : s.Linked) : Flows [] s s := ⟨h, .nil, fun _ hn => hn⟩

/-- Touches one after another take names from one scope to the next. -/
theorem append (h : Flows ts s t) (h' : Flows us t u) : Flows (ts ++ us) s u where
  linked := h'.linked
  covers := h.covers.append (h'.covers.mono h.kept)
  kept n hn := by
    rw [List.foldl_append]
    exact Touch.afterAll_mono h.kept us (h'.kept n hn)

end Scope.Flows

/-- The account by what code does to its frame. -/
def Compile.touched : Account Touch := ⟨Scope.Linked, Scope.Flows, .nil, .append, fun h => h.linked⟩

/-- What is done is what was written down, and the variables it deletes are those that parts of the program delete. -/
structure Follows (ps : List Part) (us ts : List Touch) : Prop where
  same : us = ts
  drops : ∀ n, .drop n ∈ ts → n ∈ Source.drops ps

namespace Follows

variable {ps qs : List Part} {us vs ts rs : List Touch}

/-- No part touches anything. -/
theorem nil : Follows ps [] [] := ⟨rfl, fun _ h => nomatch h⟩

/-- Parts one after another touch what they say, one after another. -/
theorem append (h : Follows ps us ts) (h' : Follows qs vs rs) : Follows (ps ++ qs) (us ++ vs) (ts ++ rs) := by
  refine ⟨congrArg₂ _ h.same h'.same, fun n hn => ?_⟩
  rw [Source.drops_append]
  exact (List.mem_append.1 hn).elim (fun hn => List.mem_append_left _ (h.drops n hn)) fun hn =>
    List.mem_append_right _ (h'.drops n hn)

/-- More parts may be what touches that. -/
theorem weaken (h : Follows ps us ts) (hsub : ps ⊆ qs) : Follows qs us ts := by
  refine ⟨h.same, fun n hn => ?_⟩
  obtain ⟨p, hp, heq⟩ := List.mem_filterMap.1 (h.drops n hn)
  exact List.mem_filterMap.2 ⟨p, hsub hp, heq⟩

theorem of_eq (h : Follows ps us ts) (heq : vs = us) : Follows ps vs ts := heq ▸ h

/-- What deletes nothing. -/
theorem ofQuiet (h : us = ts) (hquiet : ∀ n, .drop n ∉ ts) : Follows ps us ts := ⟨h, fun n hn => absurd hn (hquiet n)⟩

end Follows

/-! ## Variables -/

namespace Scope.Flows

variable {s t u : Scope} {ts us : List Touch} {ref : Ref}

/-- A variable that may be read may be given a value. -/
theorem sets (h : Flows ref.finds s t) (hw : ref.isWritable = true) : Flows ref.sets s t := by
  cases ref with
  | «local» name => exact ⟨h.linked, .bind .nil, fun n hn => .inl (h.kept n hn)⟩
  | member ns name => nomatch hw
  | _ => exact h

/-- An element is reached after its indices, which do not delete its variable. -/
theorem element (h : Flows (ref.finds ++ (ts ++ us)) s t) (hw : ref.isWritable = true)
    (hstays : ∀ n, ref = .local n → .drop n ∉ ts) : Flows (ts ++ ref.changes ++ us) s t := by
  obtain ⟨hfinds, hrest⟩ := h.covers.of_append
  rw [Ref.afterAll_finds] at hrest
  obtain ⟨hts, hus⟩ := hrest.of_append
  have hkept := h.kept
  simp only [List.foldl_append, Ref.afterAll_finds] at hkept
  have hchanges : Covers (ts.foldl Touch.after s.Holds) ref.changes ∧
      ref.changes.foldl Touch.after (ts.foldl Touch.after s.Holds) = ts.foldl Touch.after s.Holds := by
    cases ref with
    | «local» name =>
      cases hfinds with
      | find hheld _ => exact ⟨.find (Touch.afterAll_of_held hheld (hstays name rfl)) .nil, rfl⟩
    | member ns name => nomatch hw
    | _ => exact ⟨.nil, rfl⟩
  refine ⟨h.linked, .append (.append hts hchanges.1) ?_, fun n hn => ?_⟩
  · rw [List.foldl_append, hchanges.2]
    exact hus
  · rw [List.foldl_append, List.foldl_append, hchanges.2]
    exact hkept n hn

/-- A function is bound after its closure is made, which may take it along. -/
theorem define {name : String} {op : Code.Lambda} (h : Flows ([.bind name] ++ [.make op none]) s t) :
    Flows [.make op (some name), .bind name] s t := by
  refine ⟨h.linked, ?_, h.kept⟩
  cases h.covers with
  | bind rest =>
    cases rest with
    | make takes body _ =>
      refine .make (fun c hc hs => ?_) body (.bind .nil)
      rcases takes c hc hs with (hheld | heq) | hnone
      · exact .inl hheld
      · exact .inr (congrArg some heq.symm)
      · nomatch hnone

end Scope.Flows

/-! ## Names -/

/-- A name with a colon is what stands before it and what stands behind it. -/
theorem splitColon_eq {cs front back : List Char} (h : splitColon cs = some (front, back)) : cs = front ++ ':' :: back := by
  induction cs generalizing front with
  | nil => nomatch h
  | cons c cs ih =>
    unfold splitColon at h
    split at h
    · rename_i hc
      cases h
      rw [eq_of_beq hc]
      rfl
    · split at h
      · nomatch h
      · rename_i hsplit
        cases h
        rw [ih hsplit]
        rfl

/-- A name with the prefix that says it is bound here is that prefix and the name without it. -/
theorem withoutLocal_of_splitName {name rest : String} (h : splitName name = some ("local", rest)) :
    withoutLocal name = rest := by
  unfold splitName at h
  split at h
  · rename_i front back hsplit
    split at h
    · nomatch h
    · simp only [Option.some.injEq, Prod.mk.injEq] at h
      obtain ⟨hfront, rfl⟩ := h
      have hfront : front = "local".toList := by rw [← hfront, String.toList_ofList]
      have hname := splitColon_eq hsplit
      rw [hfront] at hname
      unfold withoutLocal
      rw [hname]
      rfl
  · nomatch h

namespace Scope

variable {s t : Scope} {name : String}

/-- A step that keeps the names touches none. -/
theorem Flows.still (hlinked : t.Linked) (h : ∀ n, t.Holds n ↔ s.Holds n) : Flows [] s t :=
  ⟨hlinked, .nil, fun n => (h n).1⟩

/-- A capture adds no name that a frame holds of its own. -/
theorem holds_captureInner (ht : s.captureInner name = some t) (n : String) : t.Holds n ↔ s.Holds n := by
  unfold captureInner at ht
  split at ht
  · nomatch ht
  · cases ht
    unfold Holds
    dsimp only
    split <;> rfl

/-- A declaration adds its name. -/
theorem holds_declare (s : Scope) (name n : String) : (s.declare name).Holds n ↔ s.Holds n ∨ n = name := by
  unfold Holds declare StaticFrame.declare
  split
  · rename_i h
    refine ⟨.inl, fun hn => ?_⟩
    rcases hn with hn | rfl
    · exact hn
    · exact h
  · simp [StaticFrame.hasLocal]

/-- A deletion takes its name away. -/
theorem holds_undeclare (s : Scope) (name n : String) : (s.undeclare name).Holds n ↔ s.Holds n ∧ n ≠ name := by
  simp [Holds, undeclare, StaticFrame.undeclare, StaticFrame.hasLocal]

/-- Several declarations add their names and no other. -/
theorem holds_declareAll {names : List String} {n : String} (h : (names.foldl declare s).Holds n) :
    s.Holds n ∨ n ∈ names := by
  induction names generalizing s with
  | nil => exact .inl h
  | cons name names ih =>
    rcases ih h with h | h
    · rcases (holds_declare s name n).1 h with h | rfl
      · exact .inl h
      · exact .inr List.mem_cons_self
    · exact .inr (List.mem_cons_of_mem _ h)

end Scope

/-- What a lookup finds, and what reading it does. -/
inductive Found (name : String) : Option Ref → List Touch → Prop
  | here : Found name (some (.local name)) [.find name]
  | outside {level} : Found name (some (@Ref.captured level name)) []
  | nowhere : Found name none []

/-- A name that resolves is one the innermost frame holds, or is taken along, or is found nowhere. -/
theorem resolve_touches (name : String) : (Compile.resolve name).Notes touched (Found name) := by
  intro s r t hs hr
  obtain ⟨ms, -, hleads⟩ := resolve_writes mentioned_byMention name s r t hs hr
  have hlinked : t.Linked := mentioned.ready hleads
  change ((.ok (s.resolve name).1, (s.resolve name).2) : Except Misplaced (Option Ref) × Scope) = _ at hr
  simp only [Prod.mk.injEq, Except.ok.injEq] at hr
  obtain ⟨rfl, rfl⟩ := hr
  revert hlinked
  unfold Scope.resolve
  split
  · rename_i hlocal
    exact fun hlinked => ⟨_, .here, hlinked, .find hlocal .nil, fun _ hn => hn⟩
  · split
    · exact fun hlinked => ⟨_, .outside, .nil hlinked⟩
    · split
      · exact fun hlinked => ⟨_, .nowhere, .nil hlinked⟩
      · rename_i ht
        exact fun hlinked => ⟨_, .outside, .still hlinked (Scope.holds_captureInner ht)⟩

/-- A name that is looked up from outside the innermost frame is taken along. -/
theorem resolveUp_touches (name : String) : (Compile.resolveUp name).Notes touched fun r ts =>
    [] = ts ∧ ∀ ref, r = some ref → ∃ level, ref = @Ref.captured level name := by
  intro s r t hs hr
  obtain ⟨ms, -, hleads⟩ := resolveUp_writes mentioned_byMention name s r t hs hr
  have hlinked : t.Linked := mentioned.ready hleads
  change ((.ok (s.resolveUp name).1, (s.resolveUp name).2) : Except Misplaced (Option Ref) × Scope) = _ at hr
  simp only [Prod.mk.injEq, Except.ok.injEq] at hr
  obtain ⟨rfl, rfl⟩ := hr
  revert hlinked
  unfold Scope.resolveUp
  split
  · exact fun hlinked => ⟨_, ⟨rfl, fun _ h => nomatch h⟩, .nil hlinked⟩
  · rename_i ht
    exact fun hlinked => ⟨_, ⟨rfl, fun _ h => ⟨_, (Option.some.inj h).symm⟩⟩, .still hlinked (Scope.holds_captureInner ht)⟩

/-- A declaration binds its name. -/
theorem declare_touches (name : String) : (Compile.declare name).Notes touched fun _ ts => [.bind name] = ts := by
  intro s r t hs hr
  cases hr
  exact ⟨_, rfl, (hs.declare name).linked, .bind .nil, fun n => (Scope.holds_declare s name n).1⟩

/-- A name of the innermost frame is found. -/
theorem isLocal_touches (name : String) : (Compile.isLocal name).Notes touched fun b ts => b = true → [.find name] = ts := by
  intro s r t hs hr
  cases hr
  by_cases h : s.isLocal name = true
  · exact ⟨[.find name], fun _ => rfl, hs, .find h .nil, fun _ hn => hn⟩
  · exact ⟨[], fun hb => absurd hb h, .nil hs⟩

/-- A deletion drops its name. -/
theorem undeclare_touches (name : String) : (Compile.undeclare name).Notes touched fun _ ts => [.drop name] = ts := by
  intro s r t hs hr
  cases hr
  exact ⟨_, rfl, (hs.undeclare name).linked, .drop .nil, fun n => (Scope.holds_undeclare s name n).1⟩

/-- A variable of the frame has the name it is spelled by, but for the prefix that says so. -/
def Ref.Spelled (name : String) (ref : Ref) : Prop := ∀ n, ref = .local n → n = name ∨ n = withoutLocal name

variable (span : Span)

/-- A reference that is read touches the name that it finds. -/
theorem resolveRead_touches (name : String) :
    (resolveRead span name).Notes touched fun ref ts => ref.finds = ts ∧ ref.Spelled name := by
  unfold resolveRead
  split
  · rename_i front rest hsplit
    split
    · rename_i hfront
      have hrest : withoutLocal name = rest := withoutLocal_of_splitName (eq_of_beq hfront ▸ hsplit)
      refine .bind (isLocal_touches rest) fun b ts hb => ?_
      split
      · rename_i h
        refine .pure ⟨by simp [Ref.finds, ← hb h], fun n hn => .inr ?_⟩
        cases hn
        exact hrest.symm
      · exact .fault
    · split
      · refine .bind (resolveUp_touches rest) fun r ts hr => ?_
        obtain ⟨rfl, hr⟩ := hr
        split
        · obtain ⟨level, rfl⟩ := hr _ rfl
          exact .pure ⟨rfl, fun n hn => (by cases hn)⟩
        · exact .fault
      · split
        · exact .pure ⟨rfl, fun n hn => (by cases hn)⟩
        · split
          · exact .pure ⟨rfl, fun n hn => (by cases hn)⟩
          · refine .bind (resolve_touches _) fun r ts hr => ?_
            cases hr with
            | here => exact .pure ⟨rfl, fun n hn => (by cases hn)⟩
            | outside => exact .pure ⟨rfl, fun n hn => (by cases hn)⟩
            | nowhere => exact .fault
  · refine .bind (resolve_touches name) fun r ts hr => ?_
    cases hr with
    | here => exact .pure ⟨rfl, fun n hn => .inl (Ref.local.inj hn).symm⟩
    | outside => exact .pure ⟨rfl, fun n hn => (by cases hn)⟩
    | nowhere =>
      dsimp only
      split
      · exact .pure ⟨rfl, fun n hn => (by cases hn)⟩
      · exact .fault

/-- A target that resolves is bound or found. -/
theorem resolveTarget_touches (name : String) : (resolveTarget span name).Notes touched fun ref ts => ref.sets = ts := by
  have hresolve : (Compile.resolve name).Notes touched fun r ts =>
      (∀ ref, r = some ref → ref.sets = ts) ∧ (r = none → [] = ts) := by
    refine .retell (resolve_touches name) fun r ts s t hr hflows => ?_
    cases hr with
    | here => exact ⟨_, ⟨fun ref h => Option.some.inj h ▸ rfl, fun h => nomatch h⟩,
        Scope.Flows.sets (show Scope.Flows (Ref.local name).finds s t from hflows) rfl⟩
    | outside => exact ⟨_, ⟨fun ref h => Option.some.inj h ▸ rfl, fun h => nomatch h⟩, hflows⟩
    | nowhere => exact ⟨_, ⟨fun ref h => (nomatch h), fun _ => rfl⟩, hflows⟩
  unfold resolveTarget
  split
  · exact .fault
  · split
    · rename_i front rest _
      split
      · exact .bind (declare_touches rest) fun _ ts h => .pure (by simp [← h, Ref.sets])
      · split
        · exact .pure rfl
        · refine .retell (P := fun ref ts => ref.finds = ts ∧ ref.isWritable = true) ?_ fun ref ts s t href hflows => ?_
          · refine .bind (resolveRead_touches span name) fun ref ts href => ?_
            exact .bind (checkWritable_notes span ref) fun _ us hw => .pure ⟨by simp [href.1, ← hw.1], hw.2⟩
          · exact ⟨_, rfl, Scope.Flows.sets (href.1 ▸ hflows) href.2⟩
    · refine .bind hresolve fun r ts hr => ?_
      split
      · exact .pure (by simp [hr.1 _ rfl])
      · split
        · exact .fault
        · exact .bind (declare_touches name) fun _ us h => .pure (by simp [← h, ← hr.2 rfl, Ref.sets])

/-- The head of a command touches the function that it finds. -/
theorem resolveHead_touches {ps : List Part} (name : String) :
    (resolveHead span name).Notes touched fun head ts => Follows ps head.touches ts := by
  unfold resolveHead
  split
  · exact .pure .nil
  · split
    · exact .pure .nil
    · split
      · exact .map (resolveRead_touches span _) fun ref ts h => .ofQuiet h.1 (h.1 ▸ ref.quiet_finds)
      · refine .bind (resolve_touches _) fun r ts hr => ?_
        cases hr with
        | here => exact .pure (.ofQuiet rfl (Ref.local _).quiet_finds)
        | outside => exact .pure .nil
        | nowhere =>
          dsimp only
          split <;> exact .pure .nil

/-! ## Lambdas -/

/-- The names that a closure takes from the frame that makes it are known there. -/
theorem Capture.LinkedTo.holds {c : Capture} {f : StaticFrame} {fs gs : List StaticFrame} (h : c.LinkedTo gs)
    (hgrew : FramesGrew (f :: fs) gs) (hlocal : c.source = .local) : f.hasLocal c.name = true := by
  cases hgrew with
  | cons hfg _ =>
    cases h with
    | here _ bound => exact (hfg.hasLocal _).symm.trans bound
    | further source _ _ => nomatch hlocal.symm.trans source

/-- A lambda is covered by the names of its arguments if its body follows a program. -/
theorem lambdaWith_touches (src : String) (params : List Param) {chunk : Chunk}
    (hbody : (compileChunk src chunk).Notes touched fun b ts => Follows chunk.parts b.touches ts) :
    (lambdaWith src span params (compileChunk src chunk)).Notes touched fun op ts => [.make op none] = ts := by
  refine .skip (signature_notes span [] params) fun sig => ?_
  intro s op u hs hr
  obtain ⟨⟨block, captures⟩, t, hframe, hpure⟩ := run_bind_ok hr
  cases hpure
  obtain ⟨inner, hrun, hcaptures, rfl⟩ := run_inFrame_ok hframe
  have hpushed := hs.push.declareAll (sig.params ++ sig.rest.toList)
  obtain ⟨ms, rfl, hleads⟩ := compileChunk_writes src mentioned_byMention chunk _ _ _ hpushed hrun
  obtain ⟨ts, hfollows, hflows⟩ := hbody _ _ _ hpushed hrun
  let op : Code.Lambda := ⟨sig.params, sig.rest, captures, block, ⟨src, span⟩⟩
  have hclose : Scope.Leads op.mentions s inner.pop.2 := Scope.Leads.close hleads hcaptures
  have hgrew : FramesGrew (s.inner :: s.outer) inner.outer := by
    have := hleads.outer
    rwa [Scope.outer_declareAll] at this
  refine ⟨_, rfl, hclose.linked, .make (fun c hc hlocal => ?_) ?_ .nil, fun n hn => ?_⟩
  · refine .inl (Capture.LinkedTo.holds (hleads.linked.1.captures c ?_) hgrew hlocal)
    exact (show captures = inner.inner.captures by rw [hcaptures]; unfold Scope.pop; split <;> rfl) ▸ hc
  · refine (hfollows.same ▸ hflows.covers).mono fun n hn => ?_
    rcases Scope.holds_declareAll hn with hn | hn
    · nomatch hn
    · exact hn
  · obtain ⟨frame, outer⟩ := inner
    cases hgrew with
    | cons hfg _ => exact (hfg.hasLocal n).symm.trans hn

end DualShell
