import Mathlib
import DualShell.Proofs.Scope.Target
import DualShell.Proofs.Source.Grammar

/-!
# What is defined can be named

`fn` binds a function and `use` a namespace, each under a name with a mark at its end. A word at the head of a command
and a variable with a prefix come back to these bindings by rules of their own, which first look for what else the name
could mean: a special form or a program for the one (`Callable`), the prefixes that are not aliases for the other
(`Nameable`). Where it means nothing else, it is the binding that was just made (`Compile.definitions_named`).
-/

namespace DualShell

open Compile

/-! ## What else a name could mean -/

/-- A word at the head of a command that starts no special form and is not the path of a program. -/
def Callable (name : String) : Prop := SpecialForm.ofName? name = none ∧ '/' ∉ name.toList

/-- A prefix that is an alias for this member: it says nothing about where a variable is, and the two are not a fixed
variable. -/
def Nameable (alias_ member : String) : Prop :=
  alias_ ∉ ["local", "up", "E"] ∧ member ≠ "" ∧ ¬(alias_ = "builtin" ∧ isFixedVariable member = true)

/-- The words of a `use` form that load a module under an alias: the spec, and the alias unless it is to be taken from
the spec. -/
inductive Source.Imports (spec : String) : String → List Source.Word → Prop
  | derived {word : Source.Word} (literal : word.literal? = some spec) : Imports spec (lastSegment spec) [word]
  | given {word : Source.Word} (literal : word.literal? = some spec) (alias_ : String) :
      Imports spec alias_ [word, .bare alias_]

/-- An alias that is taken from a spec holds no colon. -/
theorem colon_not_mem_lastSegment (spec : String) : ':' ∉ (lastSegment spec).toList := by
  rw [lastSegment, String.toList_ofList, List.mem_reverse]
  intro hmem
  have hplain := List.mem_takeWhile_imp hmem
  simp at hplain

/-! ## What definitions bind -/

section Definitions

variable {src : String} {span : Span} {s t : Scope} {args : List Source.Word} {op : Code.Special}

/-- A `use` form that resolves binds its alias and does nothing else. -/
theorem compileUse_ok (h : (compileUse span args).run.run s = (.ok op, t)) :
    ∃ spec alias_, Source.Imports spec alias_ args ∧ alias_ ≠ "" ∧ op = .load spec (.local (alias_ ++ ":")) ∧
    t = s.declare (alias_ ++ ":") := by
  have hload : ∀ spec alias_ : String, (if alias_.isEmpty then Compile.fault span (.noAlias spec)
      else do
        Compile.declare (alias_ ++ ":")
        pure (.load spec (.local (alias_ ++ ":"))) : Compile Code.Special).run.run s = (.ok op, t) →
      alias_ ≠ "" ∧ op = .load spec (.local (alias_ ++ ":")) ∧ t = s.declare (alias_ ++ ":") := by
    intro spec alias_ h
    split at h
    · cases h
    · rename_i hempty
      cases h
      exact ⟨by simpa using hempty, rfl, rfl⟩
  unfold compileUse at h
  split at h
  · rename_i word
    cases hword : word.literal? with
    | none =>
      rw [hword] at h
      cases h
    | some spec =>
      rw [hword] at h
      simp only [pure_bind, Option.getD_none] at h
      exact ⟨spec, _, .derived hword, hload spec (lastSegment spec) h⟩
  · rename_i word alias_
    cases hword : word.literal? with
    | none =>
      rw [hword] at h
      cases h
    | some spec =>
      rw [hword] at h
      exact ⟨spec, _, .given hword alias_, hload spec alias_ h⟩
  · cases h

/-- A lambda binds nothing around it. -/
theorem lambdaWith_locals {params : List Param} {body : Source.Chunk} {l : Code.Lambda}
    (h : (lambdaWith src span params (compileChunk src body)).run.run s = (.ok l, t)) : t.inner.locals = s.inner.locals := by
  have hlambda : (lambdaWith src span params (compileChunk src body)).Moves taking :=
    lambdaWith_moves span src params (inFrame_taking (compileChunk_moves src body))
  have hlocals := hlambda.bindsNothing.locals s
  rwa [h] at hlocals

/-- A definition that resolves binds its function. -/
theorem compileFn_ok (h : (compileFn src span args).run.run s = (.ok op, t)) :
    ∃ name params body l, args = [.bare name, .lambda params body] ∧ ':' ∉ name.toList ∧
    op = .define (.local (name ++ "~")) l ∧
      t.isLocal (name ++ "~") = true := by
  unfold compileFn at h
  split at h
  · rename_i name params body
    split at h
    · cases h
    · rename_i hcolon
      obtain ⟨_, s', hdeclare, hrest⟩ := run_bind_ok h
      obtain ⟨l, t', hlambda, hlast⟩ := run_bind_ok hrest
      cases hdeclare
      cases hlast
      refine ⟨name, params, body, l, rfl, by simpa using hcolon, rfl, ?_⟩
      have hlocal : (s.declare (name ++ "~")).inner.hasLocal (name ++ "~") = true :=
        s.inner.hasLocal_declare_self (name ++ "~")
      rwa [Scope.isLocal, StaticFrame.hasLocal, lambdaWith_locals hlambda]
  · cases h

/-- The body of a form is resolved last. -/
theorem compileForm_ok {f : Source.Form} {form : Code.Form} (h : (compileForm src f).run.run s = (.ok form, t)) :
    ∃ u, (compileBody src f.span f.body).run.run u = (.ok form.action, t) := by
  obtain ⟨temps, body, redirs, span⟩ := f
  unfold compileForm at h
  obtain ⟨redirs, t₁, -, hafter⟩ := run_bind_ok h
  obtain ⟨temps, t₂, -, hbody⟩ := run_bind_ok hafter
  obtain ⟨action, t₃, haction, hlast⟩ := run_bind_ok hbody
  cases hlast
  exact ⟨t₂, haction⟩

end Definitions

/-! ## What definitions are found by -/

section Found

variable {span : Span} {s : Scope}

/-- A bare name at the head of a command is a function that the innermost frame binds. -/
theorem resolveHead_local {name : String} (hcolon : ':' ∉ name.toList) (hslash : '/' ∉ name.toList)
    (hlocal : s.isLocal (name ++ "~") = true) : (resolveHead span name).run.run s =
    (.ok (.function name (.local (name ++ "~"))), s) := by
  have hsplit : (splitName name).isSome = false := by simp [splitName_plain hcolon]
  unfold resolveHead
  split
  · rename_i program hname
    simp [hname] at hcolon
  · have hpath : name.toList.contains '/' = false := by simpa using hslash
    simp only [hpath, hsplit, Bool.false_eq_true, if_false]
    exact run_bind (run_resolve_iff.2 (Scope.resolve_local hlocal))

/-- A variable with an alias before it is a member of the namespace of the alias. -/
theorem reads_member {alias_ member : String} (hcolon : ':' ∉ alias_.toList) (halias : alias_ ≠ "")
    (h : Nameable alias_ member) :
    (s.declare (alias_ ++ ":")).Reads (alias_ ++ ":" ++ member) (.member (.local (alias_ ++ ":")) member)
    (s.declare (alias_ ++ ":")) :=
  .member (splitName_qualified hcolon halias h.2.1) h.1 h.2.2 (s.resolve_declare (alias_ ++ ":"))

end Found

/-- What `fn` and `use` define can be named. Once a form has defined a function, a command that starts with its name and
is neither a special form nor the path of a program is a call of that function. Once a form has imported a namespace, a
variable with the alias before it is a member of that namespace, unless it has a meaning of its own; an alias that is
taken from the spec never holds a colon. -/
theorem Compile.definitions_named {src : String} {f : Source.Form} {form : Code.Form} {s t : Scope}
    (h : (compileForm src f).run.run s = (.ok form, t)) :
    (∀ args opts, f.body = .command ⟨.bare "fn", args, opts⟩ →
      ∃ name params body l, args = [.bare name, .lambda params body] ∧
      form.action = .special (.define (.local (name ++ "~")) l) ∧
        (Callable name → ∀ src' span args' opts', (compileCommand src' span ⟨.bare name, args', opts'⟩).run.run t = (do
          let args ← compileWords src' span args'
          let opts ← compileOpts src' span opts'
          return .call ⟨.function name (.local (name ++ "~")), args, opts⟩ : Compile Code.Action).run.run t)) ∧
    (∀ args opts, f.body = .command ⟨.bare "use", args, opts⟩ →
      ∃ spec alias_, Source.Imports spec alias_ args ∧ form.action = .special (.load spec (.local (alias_ ++ ":"))) ∧
        ∀ member, Nameable alias_ member → (alias_ = lastSegment spec ∨ ':' ∉ alias_.toList) → ∀ src' span explode,
          (compileWord src' span (.variable (alias_ ++ ":" ++ member) explode)).run.run t =
            (.ok (.var (.member (.local (alias_ ++ ":")) member) explode), t)) := by
  obtain ⟨u, hbody⟩ := compileForm_ok h
  generalize form.action = action at hbody ⊢
  constructor
  · intro args opts hfn
    rw [hfn, compileBody] at hbody
    obtain ⟨op, rfl, hop⟩ := compileCommand_ok .define hbody
    obtain ⟨name, params, body, l, hargs, hcolon, rfl, hlocal⟩ := compileFn_ok hop
    refine ⟨name, params, body, l, hargs, rfl, fun hname src' span args' opts' => ?_⟩
    unfold compileCommand
    rw [hname.1]
    exact run_bind (resolveHead_local hcolon hname.2 hlocal)
  · intro args opts huse
    rw [huse, compileBody] at hbody
    obtain ⟨op, rfl, hop⟩ := compileCommand_ok .load hbody
    obtain ⟨spec, alias_, himports, hempty, rfl, rfl⟩ := compileUse_ok hop
    refine ⟨spec, alias_, himports, rfl, fun member hmember hcolon src' span explode => ?_⟩
    have hplain : ':' ∉ alias_.toList := hcolon.elim (fun halias => halias ▸ colon_not_mem_lastSegment spec) id
    unfold compileWord
    exact run_bind (resolveRead_of_reads (reads_member hplain hempty hmember))

/-- The function of `fn f { }` and, after it, the namespace of `use lib/m` are named `f` and `$m:x`. -/
theorem Compile.definitions_named_fn_use :
    let definition : Source.Form := ⟨[], .command ⟨.bare "fn", [.bare "f", .lambda [] ⟨[]⟩], []⟩, [], ⟨0, 0⟩⟩
    let load : Source.Form := ⟨[], .command ⟨.bare "use", [.bare "lib/m"], []⟩, [], ⟨0, 0⟩⟩
    ∃ defined s loaded t, (compileForm "" definition).run.run (.ofGlobals []) = (.ok defined, s) ∧
      (compileCommand "" ⟨0, 0⟩ ⟨.bare "f", [.bare "a"], []⟩).run.run s =
        (.ok (.call ⟨.function "f" (.local "f~"), [.literal "a"], []⟩), s) ∧
      (compileForm "" load).run.run s = (.ok loaded, t) ∧
      (compileWord "" ⟨0, 0⟩ (.variable "m:x" false)).run.run t = (.ok (.var (.member (.local "m:") "x") false), t) := by
  intro definition load
  have hfn : (compileForm "" definition).run.run (.ofGlobals []) =
      (.ok ⟨[], .special (.define (.local "f~") ⟨[], none, [], ⟨[]⟩, ⟨"", ⟨0, 0⟩⟩⟩), [], ⟨"", ⟨0, 0⟩⟩⟩,
        .ofGlobals ["f~"]) := by cbv
  have huse : (compileForm "" load).run.run (.ofGlobals ["f~"]) =
      (.ok ⟨[], .special (.load "lib/m" (.local "m:")), [], ⟨"", ⟨0, 0⟩⟩⟩, .ofGlobals ["f~", "m:"]) := by cbv
  obtain ⟨name, params, body, l, hargs, -, hcall⟩ := (definitions_named hfn).1 _ _ rfl
  cases hargs
  obtain ⟨spec, alias_, -, haction, hmember⟩ := (definitions_named huse).2 _ _ rfl
  obtain ⟨rfl, halias⟩ : "lib/m" = spec ∧ "m:" = alias_ ++ ":" := by simpa using haction
  obtain rfl : "m" = alias_ := String.append_left_inj ":" |>.1 halias
  refine ⟨_, _, _, _, hfn, (hcall ⟨rfl, by decide⟩ "" ⟨0, 0⟩ [.bare "a"] []).trans ?_, huse, ?_⟩
  · cbv
  · exact hmember "x" ⟨by decide, by decide, by decide⟩ (.inr (by decide)) "" ⟨0, 0⟩ false

/-- `fn a/b { }` binds a function, and `a/b` is a program nevertheless; `use m local` binds a namespace, and `$local:x`
is not looked for in it. -/
theorem Compile.definitions_hidden :
    let definition : Source.Form := ⟨[], .command ⟨.bare "fn", [.bare "a/b", .lambda [] ⟨[]⟩], []⟩, [], ⟨0, 0⟩⟩
    let load : Source.Form := ⟨[], .command ⟨.bare "use", [.bare "m", .bare "local"], []⟩, [], ⟨0, 0⟩⟩
    (∃ form s, (compileForm "" definition).run.run (.ofGlobals []) = (.ok form, s) ∧ s.isLocal "a/b~" = true ∧
      (compileCommand "" ⟨0, 0⟩ ⟨.bare "a/b", [], []⟩).run.run s = (.ok (.call ⟨.external "a/b", [], []⟩), s)) ∧
    (∃ form s, (compileForm "" load).run.run (.ofGlobals []) = (.ok form, s) ∧ s.isLocal "local:" = true ∧
      (compileWord "" ⟨0, 0⟩ (.variable "local:x" false)).run.run s = (.error ⟨.unbound "local:x", ⟨0, 0⟩⟩, s)) := by
  intro definition load
  have hfn : (compileForm "" definition).run.run (.ofGlobals []) =
      (.ok ⟨[], .special (.define (.local "a/b~") ⟨[], none, [], ⟨[]⟩, ⟨"", ⟨0, 0⟩⟩⟩), [], ⟨"", ⟨0, 0⟩⟩⟩,
        .ofGlobals ["a/b~"]) := by cbv
  have huse : (compileForm "" load).run.run (.ofGlobals []) =
      (.ok ⟨[], .special (.load "m" (.local "local:")), [], ⟨"", ⟨0, 0⟩⟩⟩, .ofGlobals ["local:"]) := by cbv
  exact ⟨⟨_, _, hfn, by cbv, by cbv⟩, ⟨_, _, huse, by cbv, by cbv⟩⟩

end DualShell
