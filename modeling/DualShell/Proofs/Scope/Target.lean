import Mathlib
import DualShell.Proofs.Scope.Innermost
import DualShell.Proofs.Scope.Resolve

/-!
# What is assigned reads back

A name is understood by one rule where it is assigned and by another where it is read. There are five ways for a target
to be understood (`Scope.Targets`), and each leaves a scope in which the name reads as the reference that was made of
it. On the way at most one name is bound, by the innermost frame (`Compile.assigned_reads_back`).
-/

namespace DualShell

open Compile

/-! ## Prefixes -/

/-- A name is split at its first colon. -/
theorem splitColon_append {front : List Char} (h : ':' ∉ front) (back : List Char) :
    splitColon (front ++ ':' :: back) = some (front, back) := by
  induction front with
  | nil => rfl
  | cons c cs ih =>
    have hc : ¬(c == ':') = true := fun hc => h (by simp [beq_iff_eq.1 hc])
    rw [List.cons_append, splitColon, if_neg hc, ih fun hmem => h (List.mem_cons_of_mem c hmem)]

/-- A name without a colon is not split. -/
theorem splitColon_eq_none {cs : List Char} (h : ':' ∉ cs) : splitColon cs = none := by
  induction cs with
  | nil => rfl
  | cons c cs ih =>
    have hc : ¬(c == ':') = true := fun hc => h (by simp [beq_iff_eq.1 hc])
    rw [splitColon, if_neg hc, ih fun hmem => h (List.mem_cons_of_mem c hmem)]

/-- A name without a colon has no prefix. -/
theorem splitName_plain {name : String} (h : ':' ∉ name.toList) : splitName name = none := by
  rw [splitName, splitColon_eq_none h]

/-- The first colon ends the prefix. -/
theorem splitName_qualified {front rest : String} (h : ':' ∉ front.toList) (hfront : front ≠ "") (hrest : rest ≠ "") :
    splitName (front ++ ":" ++ rest) = some (front, rest) := by
  have hsplit : splitColon (front ++ ":" ++ rest).toList = some (front.toList, rest.toList) := by
    rw [String.toList_append, String.toList_append, List.append_assoc]
    exact splitColon_append h rest.toList
  have hempty : (front.toList.isEmpty || rest.toList.isEmpty) = false := by simp [hfront, hrest]
  rw [splitName, hsplit]
  simp only [hempty, Bool.false_eq_true, if_false, String.ofList_toList]

namespace Scope

variable {s t : Scope} {name : String} {ref : Ref}

/-! ## Looking a name up again -/

/-- The captures that a lookup records lead the next lookup the same way. -/
theorem reach_again {source : CaptureSource} {fs gs : List StaticFrame} (h : reach name fs = some (source, gs)) :
    reach name gs = some (source, gs) := by
  have hlevel := (reach_took h).grew.level name
  cases fs with
  | nil => cases h
  | cons f fs =>
    unfold reach at h
    split at h
    · rename_i hlocal
      cases h
      rw [reach, if_pos hlocal]
    · rename_i hlocal
      dsimp only at h
      split at h
      · rename_i hcapture
        cases h
        rw [reach, if_neg hlocal, if_pos hcapture]
      · split at h
        · cases h
        · rename_i inner gs' _
          cases h
          have hlocal : (f.addCapture name inner).hasLocal name ≠ true := hlocal
          have hcapture : (f.addCapture name inner).hasCapture name = true := by
            simp [StaticFrame.hasCapture, StaticFrame.addCapture]
          rw [reach, if_neg hlocal, if_pos hcapture, hlevel]

/-- A name that the innermost frame took along is not bound by that, and leads the same way again. -/
theorem captureInner_again (h : s.captureInner name = some t) :
    t.captureInner name = some t ∧ t.captured name = s.captured name ∧ t.inner.locals = s.inner.locals ∧
    t.inner.hasCapture name = true := by
  have hlevel := (keeps_captureInner h).outer.grew.level name
  unfold captureInner at h
  split at h
  · cases h
  · rename_i source outer hreach
    cases h
    have hinner : (if s.inner.hasCapture name then s.inner else s.inner.addCapture name source).hasCapture name = true := by
      split
      · assumption
      · simp [StaticFrame.hasCapture, StaticFrame.addCapture]
    refine ⟨?_, congrArg (fun level => @Ref.captured (level + 1) name) hlevel, ?_, hinner⟩
    · simp only [captureInner, reach_again hreach, hinner, if_true]
    · dsimp only
      split <;> rfl

/-- A name that was found is found again, and nothing more is taken along. -/
theorem resolve_again (h : s.resolve name = (some ref, t)) :
    t.resolve name = (some ref, t) ∧ t.inner.locals = s.inner.locals := by
  unfold resolve at h
  split at h
  · rename_i hlocal
    cases h
    exact ⟨by rw [resolve, if_pos hlocal], rfl⟩
  · rename_i hlocal
    split at h
    · rename_i hcapture
      cases h
      exact ⟨by rw [resolve, if_neg hlocal, if_pos hcapture], rfl⟩
    · split at h
      · cases h
      · rename_i hc
        cases h
        obtain ⟨-, hcaptured, hlocals, hcapture⟩ := captureInner_again hc
        have hlocal : ¬t.inner.hasLocal name = true := by rwa [StaticFrame.hasLocal, hlocals]
        exact ⟨by rw [resolve, if_neg hlocal, if_pos hcapture, hcaptured], hlocals⟩

/-- The same for a look-up from outside the innermost frame. -/
theorem resolveUp_again (h : s.resolveUp name = (some ref, t)) :
    t.resolveUp name = (some ref, t) ∧ t.inner.locals = s.inner.locals := by
  unfold resolveUp at h
  split at h
  · cases h
  · rename_i hc
    cases h
    obtain ⟨hagain, hcaptured, hlocals, -⟩ := captureInner_again hc
    exact ⟨by rw [resolveUp, hagain, hcaptured], hlocals⟩

/-- A local name is found where it is. -/
theorem resolve_local (h : s.isLocal name = true) : s.resolve name = (some (.local name), s) := by
  have hlocal : s.inner.hasLocal name = true := h
  rw [resolve, if_pos hlocal]

/-- A declared name is found. -/
theorem resolve_declare (s : Scope) (name : String) : (s.declare name).resolve name = (some (.local name), s.declare name) :=
  resolve_local (s.inner.hasLocal_declare_self name)

/-! ## How names are understood -/

/-- The ways a name is understood where it is read, and the scope each leaves. -/
inductive Reads (s : Scope) (name : String) : Ref → Scope → Prop
  | here {rest : String} (split : splitName name = some ("local", rest)) (bound : s.isLocal rest = true) :
      Reads s name (.local rest) s
  | up {rest : String} {ref : Ref} {t : Scope} (split : splitName name = some ("up", rest))
      (found : s.resolveUp rest = (some ref, t)) :
    Reads s name ref t
  | env {rest : String} (split : splitName name = some ("E", rest)) : Reads s name (.env rest) s
  | fixed {rest : String} (split : splitName name = some ("builtin", rest)) (fixed : isFixedVariable rest = true) :
    Reads s name (.builtin rest) s
  | member {front rest : String} {ns : Ref} {t : Scope} (split : splitName name = some (front, rest))
    (plain : front ∉ ["local", "up", "E"]) (other : ¬(front = "builtin" ∧ isFixedVariable rest = true))
    (found : s.resolve (front ++ ":") = (some ns, t)) : Reads s name (.member ns rest) t
  | found {ref : Ref} {t : Scope} (split : splitName name = none) (found : s.resolve name = (some ref, t)) :
      Reads s name ref t
  | unfound (split : splitName name = none) (unfound : s.resolve name = (none, s)) (fixed : isFixedVariable name = true) :
    Reads s name (.builtin name) s

/-- The ways a name is understood where it is assigned, and the scope each leaves. -/
inductive Targets (s : Scope) (name : String) : Ref → Scope → Prop
  | here {rest : String} (split : splitName name = some ("local", rest)) : Targets s name (.local rest) (s.declare rest)
  | up {rest : String} {ref : Ref} {t : Scope} (split : splitName name = some ("up", rest))
      (found : s.resolveUp rest = (some ref, t)) :
    Targets s name ref t
  | env {rest : String} (split : splitName name = some ("E", rest)) : Targets s name (.env rest) s
  | found {ref : Ref} {t : Scope} (split : splitName name = none) (found : s.resolve name = (some ref, t)) :
      Targets s name ref t
  | fresh (split : splitName name = none) (unfound : s.resolve name = (none, s)) :
      Targets s name (.local name) (s.declare name)

end Scope

namespace Compile

variable {s t : Scope} {name : String} {ref : Ref} {span : Span}

/-- To resolve a name is to look it up. -/
theorem run_resolve_iff {r : Option Ref} : (resolve name).run.run s = (.ok r, t) ↔ s.resolve name = (r, t) := by
  change (Except.ok (s.resolve name).1, (s.resolve name).2) = _ ↔ _
  rcases s.resolve name with ⟨r', t'⟩
  simp

/-- The same from outside the innermost frame. -/
theorem run_resolveUp_iff {r : Option Ref} : (resolveUp name).run.run s = (.ok r, t) ↔ s.resolveUp name = (r, t) := by
  change (Except.ok (s.resolveUp name).1, (s.resolveUp name).2) = _ ↔ _
  rcases s.resolveUp name with ⟨r', t'⟩
  simp

/-- A reference that resolves to be read is one that `Reads` tells of. -/
theorem reads_of_resolveRead (h : (resolveRead span name).run.run s = (.ok ref, t)) : s.Reads name ref t := by
  unfold resolveRead at h
  split at h
  · rename_i front rest hsplit
    split at h
    · rename_i hfront
      rw [beq_iff_eq.1 hfront] at hsplit
      obtain ⟨b, u, hb, h⟩ := run_bind_ok h
      cases hb
      split at h
      · rename_i hbound
        cases h
        exact .here hsplit hbound
      · cases h
    · rename_i hlocal
      split at h
      · rename_i hfront
        rw [beq_iff_eq.1 hfront] at hsplit
        obtain ⟨r, u, hr, h⟩ := run_bind_ok h
        split at h
        · cases h
          exact .up hsplit (run_resolveUp_iff.1 hr)
        · cases h
      · rename_i hup
        split at h
        · rename_i hfront
          rw [beq_iff_eq.1 hfront] at hsplit
          cases h
          exact .env hsplit
        · rename_i henv
          split at h
          · rename_i hfixed
            simp only [Bool.and_eq_true, beq_iff_eq] at hfixed
            rw [hfixed.1] at hsplit
            cases h
            exact .fixed hsplit hfixed.2
          · rename_i hfixed
            simp only [Bool.and_eq_true, beq_iff_eq] at hfixed
            obtain ⟨r, u, hr, h⟩ := run_bind_ok h
            split at h
            · cases h
              exact .member hsplit (by simp_all) hfixed (run_resolve_iff.1 hr)
            · cases h
  · rename_i hsplit
    obtain ⟨r, u, hr, h⟩ := run_bind_ok h
    split at h
    · cases h
      exact .found hsplit (run_resolve_iff.1 hr)
    · split at h
      · rename_i hfixed
        cases h
        have hunfound := run_resolve_iff.1 hr
        cases Scope.Linked.resolve_none hunfound
        exact .unfound hsplit hunfound hfixed
      · cases h

/-- What `Reads` tells of resolves. -/
theorem resolveRead_of_reads (h : s.Reads name ref t) : (resolveRead span name).run.run s = (.ok ref, t) := by
  cases h with
  | here hsplit hbound =>
    simp only [resolveRead, hsplit, beq_self_eq_true, if_true]
    exact run_bind (congrArg (fun b => (Except.ok b, s)) hbound)
  | up hsplit hfound =>
    simp only [resolveRead, hsplit]
    exact run_bind (run_resolveUp_iff.2 hfound)
  | env hsplit =>
    simp only [resolveRead, hsplit]
    rfl
  | fixed hsplit hfixed =>
    simp only [resolveRead, hsplit, hfixed]
    rfl
  | @member front rest ns t hsplit hplain hother hfound =>
    simp only [List.mem_cons, List.not_mem_nil, or_false, not_or] at hplain
    have hother : ¬(front == "builtin" && isFixedVariable rest) = true := by simpa using hother
    simp only [resolveRead, hsplit, beq_iff_eq, hplain, hother, if_false]
    exact run_bind (run_resolve_iff.2 hfound)
  | found hsplit hfound =>
    simp only [resolveRead, hsplit]
    exact run_bind (run_resolve_iff.2 hfound)
  | unfound hsplit hunfound hfixed =>
    simp only [resolveRead, hsplit]
    rw [run_bind (run_resolve_iff.2 hunfound)]
    simp only [hfixed, if_true]
    rfl

/-- A reference that resolves as a target is one that `Targets` tells of. -/
theorem targets_of_resolveTarget (h : (resolveTarget span name).run.run s = (.ok ref, t)) : s.Targets name ref t := by
  unfold resolveTarget at h
  split at h
  · cases h
  · split at h
    · rename_i front rest hsplit
      split at h
      · rename_i hfront
        rw [beq_iff_eq.1 hfront] at hsplit
        cases h
        exact .here hsplit
      · rename_i hlocal
        split at h
        · rename_i hfront
          rw [beq_iff_eq.1 hfront] at hsplit
          cases h
          exact .env hsplit
        · rename_i henv
          obtain ⟨r, u, hread, hchecked⟩ := run_bind_ok h
          obtain ⟨_, v, hcheck, hpure⟩ := run_bind_ok hchecked
          cases hpure
          unfold checkWritable at hcheck
          split at hcheck
          · rename_i hwritable
            cases hcheck
            -- Of what reads with a prefix, only a variable of a frame around and one of the environment can be written.
            cases reads_of_resolveRead hread with
            | here hsplit' _ => cases hsplit.symm.trans hsplit'; exact absurd rfl hlocal
            | env hsplit' => cases hsplit.symm.trans hsplit'; exact absurd rfl henv
            | up hsplit' hfound => exact .up hsplit' hfound
            | fixed _ _ => cases hwritable
            | member _ _ _ _ => cases hwritable
            | found hsplit' _ => cases hsplit.symm.trans hsplit'
            | unfound hsplit' _ _ => cases hsplit.symm.trans hsplit'
          · cases hcheck
    · rename_i hsplit
      obtain ⟨r, u, hr, h⟩ := run_bind_ok h
      split at h
      · cases h
        exact .found hsplit (run_resolve_iff.1 hr)
      · split at h
        · cases h
        · cases h
          have hunfound := run_resolve_iff.1 hr
          cases Scope.Linked.resolve_none hunfound
          exact .fresh hsplit hunfound

end Compile

/-! ## What a target binds -/

/-- The name that a reference adds to a frame: that of a variable of its own which the frame does not bind. -/
def Ref.added (f : StaticFrame) : Ref → List String
  | .local name => if f.hasLocal name then [] else [name]
  | _ => []

/-- A declaration adds its name if it is not there. -/
theorem StaticFrame.locals_declare (f : StaticFrame) (name : String) :
    (f.declare name).locals = f.locals ++ (Ref.local name).added f := by
  unfold StaticFrame.declare Ref.added
  split <;> simp [*]

namespace Scope

variable {s t : Scope} {name : String} {ref : Ref}

/-- What is looked up from outside the innermost frame is captured. -/
theorem resolveUp_eq_captured (h : s.resolveUp name = (some ref, t)) : ref = s.captured name := by
  unfold resolveUp at h
  split at h
  · cases h
  · cases h
    rfl

/-- What is found is bound already. -/
theorem added_of_resolve (h : s.resolve name = (some ref, t)) : ref.added s.inner = [] := by
  unfold resolve at h
  split at h
  · rename_i hlocal
    cases h
    simp [Ref.added, hlocal]
  · split at h
    · cases h
      rfl
    · split at h
      · cases h
      · cases h
        rfl

namespace Targets

/-- A name that was assigned reads as what it was assigned as. -/
theorem reads (h : s.Targets name ref t) : t.Reads name ref t := by
  cases h with
  | here hsplit => exact .here hsplit (s.inner.hasLocal_declare_self _)
  | up hsplit hfound => exact .up hsplit (resolveUp_again hfound).1
  | env hsplit => exact .env hsplit
  | found hsplit hfound => exact .found hsplit (resolve_again hfound).1
  | fresh hsplit _ => exact .found hsplit (s.resolve_declare name)

/-- Targets can be written. -/
theorem isWritable (h : s.Targets name ref t) : ref.isWritable = true := by
  cases h with
  | here | env | fresh => rfl
  | up _ hfound =>
    rw [resolveUp_eq_captured hfound]
    rfl
  | found _ hfound => exact Linked.resolve_isWritable hfound

/-- The frames around the innermost one bind what they bound. -/
theorem outer (h : s.Targets name ref t) : t.outer.map (·.locals) = s.outer.map (·.locals) := by
  cases h with
  | here | env | fresh => rfl
  | @up rest _ _ _ hfound =>
    have hkeeps := s.keeps_resolveUp rest
    rw [hfound] at hkeeps
    exact hkeeps.outer.locals
  | found _ hfound =>
    have hkeeps := s.keeps_resolve name
    rw [hfound] at hkeeps
    exact hkeeps.outer.locals

/-- The innermost frame binds at most the variable that is assigned anew. -/
theorem inner (h : s.Targets name ref t) : t.inner.locals = s.inner.locals ++ ref.added s.inner := by
  cases h with
  | @here rest _ => exact s.inner.locals_declare rest
  | env => exact (List.append_nil _).symm
  | up _ hfound =>
    rw [resolveUp_eq_captured hfound]
    exact (resolveUp_again hfound).2.trans (List.append_nil _).symm
  | found _ hfound => rw [(resolve_again hfound).2, added_of_resolve hfound, List.append_nil]
  | fresh => exact s.inner.locals_declare name

end Targets

end Scope

/-- A name that was assigned, with whatever prefix, reads as the same reference from then on, and that is not a fixed
variable or a member of a namespace. No frame binds anything new but the innermost one, and that only the variable
itself if it is new there. -/
theorem Compile.assigned_reads_back {s t : Scope} {name : String} {ref : Ref} {span : Span}
    (h : (resolveTarget span name).run.run s = (.ok ref, t)) :
    (∀ span', (resolveRead span' name).run.run t = (.ok ref, t)) ∧ (∀ n, ref ≠ .builtin n) ∧ (∀ ns n, ref ≠ .member ns n) ∧
      t.outer.map (·.locals) = s.outer.map (·.locals) ∧ t.inner.locals = s.inner.locals ++ ref.added s.inner := by
  have htargets := targets_of_resolveTarget h
  have hwritable := htargets.isWritable
  refine ⟨fun _ => resolveRead_of_reads htargets.reads, fun n hn => ?_, fun ns n hn => ?_, htargets.outer, htargets.inner⟩
  · rw [hn] at hwritable
    cases hwritable
  · rw [hn] at hwritable
    cases hwritable

/-- In a lambda, the name of a variable that was found outside becomes that of a variable of the lambda. -/
theorem Compile.assigned_reads_back_shadowing :
    let s := (((Scope.ofGlobals ["x"]).push).resolve "x").2
    (resolveTarget ⟨0, 0⟩ "local:x").run.run s = (.ok (.local "x"), s.declare "x") ∧
      (∀ span, (resolveRead span "local:x").run.run (s.declare "x") = (.ok (.local "x"), s.declare "x")) ∧
      (s.declare "x").outer.map (·.locals) = [["x"]] ∧ (s.declare "x").inner.locals = [] ++ ["x"] := by
  intro s
  have h : (resolveTarget ⟨0, 0⟩ "local:x").run.run s = (.ok (.local "x"), s.declare "x") := by cbv
  obtain ⟨hread, -, -, houter, hinner⟩ := assigned_reads_back h
  exact ⟨h, hread, houter, hinner⟩

end DualShell
