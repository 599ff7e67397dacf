import Mathlib.Logic.Function.Basic
import DualShell.Proofs.Flow.Protected
import DualShell.Proofs.Flow.Temporary

/-!
# Redirections

A form closes the pipe ends that its redirections leave no place for, makes its redirections from left to right on the
table around it with the other pipe ends in it, and then runs under the table it got, or not at all
(`Evaluator.redirection`). The law is about runs that end and about runs that are going on, and what a table holds for a
descriptor in the end is read off the last redirection of that descriptor (`Redirects.kept`, `Redirects.last`).
-/

namespace DualShell

open Eval

/-! ## Tables -/

namespace Descriptors

/-- What was inserted is found. -/
theorem find?_insert_self (fd : Nat) (p : Connection) (es : List (Nat × Connection)) :
    (insert fd p es).find? (·.1 == fd) = some (fd, p) := by
  induction es with
  | nil => simp [insert]
  | cons e es ih =>
    unfold insert
    split
    · simp
    · split
      · simp
      · rename_i hne _
        have hne' : ¬(e.1 == fd) = true := fun heq => hne (beq_iff_eq.mpr (beq_iff_eq.mp heq).symm)
        rw [List.find?_cons_of_neg (p := fun e : Nat × Connection => e.1 == fd) hne', ih]

/-- Other descriptors are found as before. -/
theorem find?_insert_ne {fd fd' : Nat} (h : fd' ≠ fd) (p : Connection) (es : List (Nat × Connection)) :
    (insert fd p es).find? (·.1 == fd') = es.find? (·.1 == fd') := by
  have hne : ¬(fd == fd') = true := by simpa using h.symm
  induction es with
  | nil => simp [insert, hne]
  | cons e es ih =>
    unfold insert
    split
    · rename_i heq
      have hne' : ¬(e.1 == fd') = true := by rwa [← beq_iff_eq.mp heq]
      simp only [List.find?_cons, hne, hne']
    · split
      · simp only [List.find?_cons, hne]
      · simp only [List.find?_cons, ih]

/-- To give a descriptor a connection, or to close it, is of no account to the others. -/
theorem get?_set (t : Descriptors) (fd : Nat) (p : Option Connection) : (t.set fd p).get? = Function.update t.get? fd p := by
  funext fd'
  by_cases h : fd' = fd
  · subst h
    rw [Function.update_self]
    cases p with
    | some p => exact congrArg (Option.map _) (find?_insert_self fd' p t.entries)
    | none =>
      have hnone : (t.entries.filter (·.1 != fd')).find? (·.1 == fd') = none := by simp [List.find?_eq_none]
      exact congrArg (Option.map _) hnone
  · rw [Function.update_of_ne h]
    cases p with
    | some p => exact congrArg (Option.map _) (find?_insert_ne h p t.entries)
    | none =>
      have hsame : (t.entries.filter (·.1 != fd)).find? (·.1 == fd') = t.entries.find? (·.1 == fd') := by
        rw [List.find?_filter]
        refine congrArg (List.find? · t.entries) (funext fun e => ?_)
        by_cases heq : e.1 = fd' <;> simp [heq, h]
      exact congrArg (Option.map _) hsame

end Descriptors

namespace Wiring

/-- The pipe end that is meant for a descriptor. -/
def end? (w : Wiring) : Nat → Option Connection
  | 0 => w.input.map .reading
  | 1 => w.output.map .writing
  | _ + 2 => none

/-- Ends that a form was given go before the descriptors it has. -/
theorem get?_install (w : Wiring) (t : Descriptors) (fd : Nat) : (w.install t).get? fd = (w.end? fd).or (t.get? fd) := by
  obtain ⟨input, output⟩ := w
  unfold install
  cases input <;> cases output <;> rcases fd with _ | _ | fd <;> simp [end?, Descriptors.get?_set]

/-- Ends that are redirected are left out. -/
theorem end?_split (w : Wiring) (fds : List Nat) (fd : Nat) :
    (w.split fds).2.end? fd = if fd ∈ fds then none else w.end? fd := by
  rcases fd with _ | _ | fd
  · by_cases h : 0 ∈ fds <;> simp [split, end?, h]
  · by_cases h : 1 ∈ fds <;> simp [split, end?, h]
  · simp [end?]

/-- The requests that close pipe ends, and their answers. -/
def closings (w : Wiring) : List Exchange :=
  (w.input.toList.map fun i => ⟨.closeInlet i, ()⟩) ++ w.output.toList.map fun o => ⟨.closeOutlet o, ()⟩

section

variable {es : List Exchange}

theorem ends_closeOutlet {o : Outlet} {r : Outcome} : (ask (.closeOutlet o)).Ends es r ↔ es = [⟨.closeOutlet o, ()⟩] ∧
    r = .ok () :=
  ends_ask.trans ⟨fun ⟨(), h⟩ => h, fun h => ⟨(), h⟩⟩

/-- To close the ends that a form was given asks for that and nothing else. -/
theorem ends_close {w : Wiring} {r : Outcome} : w.close.Ends es r ↔ es = w.closings ∧ r = .ok () := by
  obtain ⟨input, output⟩ := w
  -- What is left when the inlet is closed.
  have hrest : ∀ {es}, Eval.Ends (Wiring.close ⟨none, output⟩) es r ↔ es = Wiring.closings ⟨none, output⟩ ∧ r = .ok () := by
    intro es
    cases output with
    | none => exact ends_pure
    | some o => exact ends_closeOutlet
  cases input with
  | none => exact hrest
  | some i =>
    refine (ends_ask_bind (q := .closeInlet i)).trans ⟨?_, ?_⟩
    · rintro ⟨⟨⟩, rest, rfl, h⟩
      obtain ⟨rfl, rfl⟩ := hrest.1 h
      exact ⟨rfl, rfl⟩
    · rintro ⟨rfl, rfl⟩
      exact ⟨(), _, rfl, hrest.2 ⟨rfl, rfl⟩⟩

/-- While pipe ends are being closed, the first ones are. -/
theorem makes_close {w : Wiring} : w.close.Makes es ↔ es <+: w.closings := by
  obtain ⟨input, output⟩ := w
  have hrest : ∀ {es}, Eval.Makes (Wiring.close ⟨none, output⟩) es ↔ es <+: Wiring.closings ⟨none, output⟩ := by
    intro es
    cases output with
    | none =>
      refine ⟨fun h => ?_, fun h => ?_⟩
      · cases h
        exact List.nil_prefix
      · cases List.prefix_nil.1 h
        exact .nothing _
    | some o =>
      refine (Task.makes_request (r := .closeOutlet o)).trans ⟨?_, fun h => ?_⟩
      · rintro (rfl | ⟨⟨⟩, rest, rfl, h⟩)
        · exact List.nil_prefix
        · cases h
          exact List.prefix_rfl
      · obtain rfl | ⟨rest, rfl, hrest⟩ := List.prefix_cons_iff.1 h
        · exact .inl rfl
        · cases List.prefix_nil.1 hrest
          exact .inr ⟨(), [], rfl, .nothing _⟩
  cases input with
  | none => exact hrest
  | some i =>
    refine (Task.makes_request (r := .closeInlet i)).trans ⟨?_, fun h => ?_⟩
    · rintro (rfl | ⟨⟨⟩, rest, rfl, h⟩)
      · exact List.nil_prefix
      · exact (List.prefix_cons_inj _).2 (hrest.1 h)
    · obtain rfl | ⟨rest, rfl, hprefix⟩ := List.prefix_cons_iff.1 h
      · exact .inl rfl
      · exact .inr ⟨(), rest, rfl, hrest.2 hprefix⟩

end

end Wiring

/-! ## Redirections from left to right -/

namespace Evaluator

/-- A run of one redirection on a table, and the table it comes to or the failure. -/
inductive Redirect (e : Evaluator) (ctx : Context) (t : Descriptors) :
    Code.Redir → List Exchange → Except Exception Descriptors → Prop
  | close {fd : Nat} {mode : RedirMode} : Redirect e ctx t ⟨fd, mode, .close⟩ [] (.ok (t.set fd none))
  /-- The descriptor gets the connection that the other one has. -/
  | duplicate {fd source : Nat} {mode : RedirMode} {p : Connection} (hsource : t.get? source = some p) :
      Redirect e ctx t ⟨fd, mode, .fd source⟩ [] (.ok (t.set fd (some p)))
  | notOpen {fd source : Nat} {mode : RedirMode} (hsource : t.get? source = none) :
      Redirect e ctx t ⟨fd, mode, .fd source⟩ [] (.error (.ofCause (.io s!"fd {source} is not open")))
  | opened {fd : Nat} {mode : RedirMode} {target : Code.Operand} {v : Value} {path : String} {es : List Exchange}
      (p : Connection)
      (hvalue : (e.single target ctx "redirection target").Ends es (.ok v))
      (hpath : v.expectString "redirection target" = .ok path) :
      Redirect e ctx t ⟨fd, mode, .path target⟩ (es ++ [⟨.openFile path mode, .ok p⟩]) (.ok (t.set fd (some p)))
  | noValue {fd : Nat} {mode : RedirMode} {target : Code.Operand} {ex : Exception} {es : List Exchange}
      (hvalue : (e.single target ctx "redirection target").Ends es (.error ex)) :
      Redirect e ctx t ⟨fd, mode, .path target⟩ es (.error ex)
  | noPath {fd : Nat} {mode : RedirMode} {target : Code.Operand} {v : Value} {c : Cause} {es : List Exchange}
      (hvalue : (e.single target ctx "redirection target").Ends es (.ok v))
      (hpath : v.expectString "redirection target" = .error c) :
      Redirect e ctx t ⟨fd, mode, .path target⟩ es (.error (.ofCause c))
  | notOpened {fd : Nat} {mode : RedirMode} {target : Code.Operand} {v : Value} {path : String} {es : List Exchange}
      (err : OsError)
      (hvalue : (e.single target ctx "redirection target").Ends es (.ok v))
      (hpath : v.expectString "redirection target" = .ok path) :
      Redirect e ctx t ⟨fd, mode, .path target⟩ (es ++ [⟨.openFile path mode, .error err⟩])
        (.error (.ofCause (.io s!"{path}: {err.message}")))

/-- A run of redirections from left to right, up to the first failure. -/
inductive Redirects (e : Evaluator) (ctx : Context) :
    List Code.Redir → Descriptors → List Exchange → Except Exception Descriptors → Prop
  | made {t : Descriptors} : Redirects e ctx [] t [] (.ok t)
  | next {r : Code.Redir} {rs : List Code.Redir} {t t' : Descriptors} {es₁ es₂ : List Exchange}
      {result : Except Exception Descriptors}
      (hfirst : e.Redirect ctx t r es₁ (.ok t')) (hrest : Redirects e ctx rs t' es₂ result) :
      Redirects e ctx (r :: rs) t (es₁ ++ es₂) result
  | failed {r : Code.Redir} {rs : List Code.Redir} {t : Descriptors} {es : List Exchange} {ex : Exception}
      (hfirst : e.Redirect ctx t r es (.error ex)) : Redirects e ctx (r :: rs) t es (.error ex)

variable {e : Evaluator} {ctx : Context} {t t' : Descriptors} {r : Code.Redir} {rs : List Code.Redir} {es : List Exchange}
  {result : Except Exception Descriptors}

/-- One redirection. -/
def redirectOne (e : Evaluator) (ctx : Context) (r : Code.Redir) (t : Descriptors) : Eval Descriptors :=
  match r.target with
  | .close => pure (t.set r.fd none)
  | .fd source => Eval.ofExcept (t.duplicate source r.fd)
  | .path target => do
    let v ← e.single target ctx "redirection target"
    let path ← Eval.ofExcept (v.expectString "redirection target")
    let connection ← Eval.ofExcept ((← ask (.openFile path r.mode)).mapError fun err => Cause.io s!"{path}: {err.message}")
    pure (t.set r.fd (some connection))

/-- Redirections are made from left to right. -/
theorem redirect_cons : e.redirect ctx (r :: rs) t = (do e.redirect ctx rs (← e.redirectOne ctx r t)) := by
  obtain ⟨fd, mode, target⟩ := r
  cases target with
  | close => rfl
  | fd source => rfl
  | path target => simp only [redirect, redirectOne, bind_assoc, pure_bind]

/-- A redirection ends as `Redirect` says. -/
theorem ends_redirectOne : (e.redirectOne ctx r t).Ends es result ↔ e.Redirect ctx t r es result := by
  obtain ⟨fd, mode, target⟩ := r
  cases target with
  | close =>
    refine ends_pure.trans ⟨?_, fun h => ?_⟩
    · rintro ⟨rfl, rfl⟩
      exact .close
    · cases h
      exact ⟨rfl, rfl⟩
  | fd source =>
    refine (ends_ofExcept (v := t.duplicate source fd)).trans ?_
    unfold Descriptors.duplicate
    constructor
    · rintro ⟨rfl, rfl⟩
      split
      · exact .duplicate ‹_›
      · exact .notOpen ‹_›
    · intro h
      cases h with
      | duplicate hsource | notOpen hsource => exact ⟨rfl, by rw [hsource]; rfl⟩
  | path target =>
    constructor
    · intro h
      obtain ⟨ex, hvalue, rfl⟩ | ⟨es₁, rest, v, rfl, hvalue, hrest⟩ := ends_bind.1 h
      · exact .noValue hvalue
      obtain ⟨c, hpath, rfl, rfl⟩ | ⟨path, hpath, hopen⟩ := ends_ofExcept_bind.1 hrest
      · rw [List.append_nil]
        exact .noPath hvalue hpath
      obtain ⟨answer, es₂, rfl, hset⟩ := ends_ask_bind.1 hopen
      cases answer with
      | ok p =>
        obtain ⟨rfl, rfl⟩ := ends_pure.1 hset
        exact .opened p hvalue hpath
      | error err =>
        obtain ⟨rfl, rfl⟩ := ends_fail.1 hset
        exact .notOpened err hvalue hpath
    · intro h
      cases h with
      | noValue hvalue => exact hvalue.bind_error
      | noPath hvalue hpath => exact hvalue.bind_last (ends_ofExcept_bind.2 (.inl ⟨_, hpath, rfl, rfl⟩))
      | opened p hvalue hpath =>
        exact hvalue.bind (ends_ofExcept_bind.2 (.inr ⟨_, hpath, ends_ask_bind.2 ⟨_, _, rfl, ends_pure.2 ⟨rfl, rfl⟩⟩⟩))
      | notOpened err hvalue hpath =>
        exact hvalue.bind (ends_ofExcept_bind.2 (.inr ⟨_, hpath, ends_ask_bind.2 ⟨_, _, rfl, ends_fail.2 ⟨rfl, rfl⟩⟩⟩))

/-- Redirections end as `Redirects` says. -/
theorem ends_redirect : (e.redirect ctx rs t).Ends es result ↔ e.Redirects ctx rs t es result := by
  induction rs generalizing t es with
  | nil =>
    refine ends_pure.trans ⟨?_, fun h => ?_⟩
    · rintro ⟨rfl, rfl⟩
      exact .made
    · cases h
      exact ⟨rfl, rfl⟩
  | cons r rs ih =>
    rw [redirect_cons]
    refine ends_bind.trans ⟨?_, fun h => ?_⟩
    · rintro (⟨ex, hfirst, rfl⟩ | ⟨es₁, es₂, t', rfl, hfirst, hrest⟩)
      · exact .failed (ends_redirectOne.1 hfirst)
      · exact .next (ends_redirectOne.1 hfirst) (ih.1 hrest)
    · cases h with
      | next hfirst hrest => exact .inr ⟨_, _, _, rfl, ends_redirectOne.2 hfirst, ih.2 hrest⟩
      | failed hfirst => exact .inl ⟨_, ends_redirectOne.2 hfirst, rfl⟩

/-! ### What descriptors come to -/

/-- A redirection is of account to its own descriptor only. -/
theorem Redirect.other (h : e.Redirect ctx t r es (.ok t')) {fd : Nat} (hfd : fd ≠ r.fd) : t'.get? fd = t.get? fd := by
  cases h <;> rw [Descriptors.get?_set, Function.update_of_ne hfd]

/-- A descriptor that is not redirected stays as it is. -/
theorem Redirects.kept (h : e.Redirects ctx rs t es result) (hresult : result = .ok t') {fd : Nat}
    (hfd : fd ∉ rs.map (·.fd)) : t'.get? fd = t.get? fd := by
  induction h with
  | made =>
    cases hresult
    rfl
  | next hfirst _ ih =>
    obtain ⟨hne, hrest⟩ := not_or.1 (mt List.mem_cons.2 hfd)
    exact (ih hresult hrest).trans (hfirst.other hne)
  | failed => cases hresult

/-- A redirected descriptor is as its last redirection left it. -/
theorem Redirects.last (h : e.Redirects ctx rs t es result) (hresult : result = .ok t') {fd : Nat}
    (hfd : fd ∈ rs.map (·.fd)) :
    ∃ front r rest before after es₁ es₂ es₃, rs = front ++ r :: rest ∧ r.fd = fd ∧ es = es₁ ++ (es₂ ++ es₃) ∧
      e.Redirects ctx front t es₁ (.ok before) ∧ e.Redirect ctx before r es₂ (.ok after) ∧ t'.get? fd = after.get? fd := by
  induction h with
  | made => exact absurd hfd List.not_mem_nil
  | @next r rs t t₁ es₁ es₂ result hfirst hrest ih =>
    by_cases hlater : fd ∈ rs.map (·.fd)
    · obtain ⟨front, last, rest, before, after, es₃, es₄, es₅, rfl, hlast, rfl, hfront, hafter, hsame⟩ := ih hresult hlater
      exact ⟨r :: front, last, rest, before, after, es₁ ++ es₃, es₄, es₅, rfl, hlast, (List.append_assoc ..).symm,
        .next hfirst hfront, hafter, hsame⟩
    · have hown : fd = r.fd := (List.mem_cons.1 hfd).resolve_right hlater
      exact ⟨[], r, rs, t, t₁, [], es₁, es₂, rfl, hown.symm, rfl, .made, hfirst, hrest.kept hresult hlater⟩
  | failed => cases hresult

/-- Where the connection of a descriptor comes from. -/
inductive CameBy (e : Evaluator) (ctx : Context) (rs : List Code.Redir) (t : Descriptors) (es : List Exchange)
    (fd : Nat) (p : Connection) : Prop
  /-- It was there. -/
  | kept (hfd : fd ∉ rs.map (·.fd)) (h : t.get? fd = some p)
  /-- It was opened for the descriptor. -/
  | opened {mode : RedirMode} {target : Code.Operand} {path : String} (hredir : ⟨fd, mode, .path target⟩ ∈ rs)
      (hopened : ⟨.openFile path mode, .ok p⟩ ∈ es)
  /-- The last redirection of the descriptor duplicated another one, which had the connection at that point. -/
  | duplicate {front rest : List Code.Redir} {source : Nat} {mode : RedirMode} {before : Descriptors} {es₁ : List Exchange}
      (hredirs : rs = front ++ ⟨fd, mode, .fd source⟩ :: rest) (hbefore : e.Redirects ctx front t es₁ (.ok before))
      (hsource : before.get? source = some p)

/-- What a descriptor comes to came by one of the redirections, or was there. -/
theorem Redirects.cameBy (h : e.Redirects ctx rs t es (.ok t')) {fd : Nat} {p : Connection} (hp : t'.get? fd = some p) :
    e.CameBy ctx rs t es fd p := by
  by_cases hfd : fd ∈ rs.map (·.fd)
  · obtain ⟨front, r, rest, before, after, es₁, es₂, es₃, rfl, rfl, rfl, hfront, hr, hsame⟩ := h.last rfl hfd
    rw [hsame] at hp
    cases hr with
    | close =>
      rw [Descriptors.get?_set, Function.update_self] at hp
      cases hp
    | duplicate hsource =>
      rw [Descriptors.get?_set, Function.update_self] at hp
      exact .duplicate rfl hfront (hsource.trans hp)
    | @opened fd mode _ _ path es₂ q hvalue hpath =>
      rw [Descriptors.get?_set, Function.update_self] at hp
      cases hp
      have hopened : (⟨.openFile path mode, .ok p⟩ : Exchange) ∈ es₁ ++
        (es₂ ++ [⟨.openFile path mode, .ok p⟩] ++ es₃) := by simp
      exact .opened (List.mem_append_right _ List.mem_cons_self) hopened
  · exact .kept hfd ((h.kept rfl hfd).symm.trans hp)

/-! ## The whole form -/

/-- What a form does under the table it got. -/
def body (e : Evaluator) (form : Code.Form) (ctx : Context) (t : Descriptors) : Eval Unit :=
  e.withTemps form.temps (ctx.withDescriptors t) (e.evalAction form.action (ctx.withDescriptors t))

/-- A run of a form between the closings of its pipe ends. -/
inductive Inside (e : Evaluator) (form : Code.Form) (ctx : Context) (wiring : Wiring) : List Exchange → Outcome → Prop
  /-- A redirection fails, and nothing else runs. -/
  | refused {es : List Exchange} {ex : Exception} (h : e.Redirects ctx form.redirs (form.table ctx wiring) es (.error ex)) :
      Inside e form ctx wiring es (.error ex)
  | ran {es₁ es₂ : List Exchange} {t : Descriptors} {o : Outcome}
      (h : e.Redirects ctx form.redirs (form.table ctx wiring) es₁ (.ok t))
      (hbody : (e.body form ctx t).Ends es₂ o) : Inside e form ctx wiring (es₁ ++ es₂) o

/-- A form with its redirections ends as `Inside` says. -/
theorem ends_redirected {form : Code.Form} {wiring : Wiring} {o : Outcome} :
    (e.redirected form ctx (form.table ctx wiring)).Ends es o ↔ e.Inside form ctx wiring es o := by
  refine ends_bind.trans ⟨?_, fun h => ?_⟩
  · rintro (⟨ex, h, rfl⟩ | ⟨es₁, es₂, t, rfl, h, hbody⟩)
    · exact .refused (ends_redirect.1 h)
    · exact .ran (ends_redirect.1 h) hbody
  · cases h with
    | refused h => exact .inl ⟨_, ends_redirect.2 h, rfl⟩
    | ran h hbody => exact .inr ⟨_, _, _, rfl, ends_redirect.2 h, hbody⟩

/-- A failure is told with the place that it passed. -/
theorem ends_passing {o' o : Outcome} {place : Place} :
    Eval.Ends (match o' with | .ok () => pure () | .error ex => throw (ex.passing place) : Eval Unit) es o ↔
      es = [] ∧ o = o'.mapError (·.passing place) := by
  cases o' with
  | ok => exact ends_pure
  | error => exact ends_throw

/-- While it goes on it is in its redirections or in its body. -/
theorem makes_redirected {form : Code.Form} {wiring : Wiring} : (e.redirected form ctx (form.table ctx wiring)).Makes es ↔
    (e.redirect ctx form.redirs (form.table ctx wiring)).Makes es ∨ ∃ es₁ es₂ t, es = es₁ ++ es₂ ∧
      e.Redirects ctx form.redirs (form.table ctx wiring) es₁ (.ok t) ∧ (e.body form ctx t).Makes es₂ := by
  refine makes_bind.trans (or_congr .rfl ⟨?_, ?_⟩)
  · rintro ⟨es₁, es₂, t, rfl, h, hbody⟩
    exact ⟨es₁, es₂, t, rfl, ends_redirect.1 h, hbody⟩
  · rintro ⟨es₁, es₂, t, rfl, h, hbody⟩
    exact ⟨es₁, es₂, t, rfl, ends_redirect.2 h, hbody⟩

section

variable {form : Code.Form} {wiring : Wiring}

/-- A run of a form that ends closes the pipe ends that are not taken first, and those that were taken last. -/
theorem ends_evalForm {o : Outcome} : (e.evalForm form ctx wiring).Ends es o ↔
    ∃ es' o', es = (wiring.split (form.redirs.map (·.fd))).1.closings ++
      (es' ++ (wiring.split (form.redirs.map (·.fd))).2.closings) ∧ e.Inside form ctx wiring es' o' ∧
        o = o'.mapError (·.passing form.place) := by
  rw [evalForm_eq]
  constructor
  · intro h
    obtain ⟨ex, hclose, -⟩ | ⟨es₁, rest, ⟨⟩, rfl, hclose, hrest⟩ := ends_bind.1 h
    · nomatch (Wiring.ends_close.1 hclose).2
    obtain ⟨es₂, es₃, o', rfl, hinside, hlast⟩ := ends_attempt_bind.1 hrest
    obtain ⟨ex, hclose', -⟩ | ⟨es₃, es₄, ⟨⟩, rfl, hclose', hend⟩ := ends_bind.1 hlast
    · nomatch (Wiring.ends_close.1 hclose').2
    obtain ⟨rfl, rfl⟩ := ends_passing.1 hend
    obtain ⟨rfl, -⟩ := Wiring.ends_close.1 hclose
    obtain ⟨rfl, -⟩ := Wiring.ends_close.1 hclose'
    exact ⟨es₂, o', by rw [List.append_nil], ends_redirected.1 hinside, rfl⟩
  · rintro ⟨es', o', rfl, hinside, rfl⟩
    refine (Wiring.ends_close.2 ⟨rfl, rfl⟩).bind (ends_attempt_bind.2 ⟨_, _, o', rfl, ends_redirected.2 hinside, ?_⟩)
    exact (Wiring.ends_close.2 ⟨rfl, rfl⟩).bind_last (ends_passing.2 ⟨rfl, rfl⟩)

/-- A run of a form that is going on is closing the first ends, inside, or closing the last ones. -/
theorem makes_evalForm : (e.evalForm form ctx wiring).Makes es ↔ es <+: (wiring.split (form.redirs.map (·.fd))).1.closings ∨
    ∃ es', es = (wiring.split (form.redirs.map (·.fd))).1.closings ++ es' ∧
      ((e.redirect ctx form.redirs (form.table ctx wiring)).Makes es' ∨
        (∃ es₁ es₂ t, es' = es₁ ++ es₂ ∧ e.Redirects ctx form.redirs (form.table ctx wiring) es₁ (.ok t) ∧
          (e.body form ctx t).Makes es₂) ∨
        ∃ es₁ es₂ o, es' = es₁ ++ es₂ ∧ e.Inside form ctx wiring es₁ o ∧
          es₂ <+: (wiring.split (form.redirs.map (·.fd))).2.closings) := by
  rw [evalForm_eq]
  constructor
  · intro h
    obtain hclose | ⟨es₁, es', ⟨⟩, rfl, hclose, hrest⟩ := makes_bind.1 h
    · exact .inl (Wiring.makes_close.1 hclose)
    obtain ⟨rfl, -⟩ := Wiring.ends_close.1 hclose
    refine .inr ⟨es', rfl, ?_⟩
    obtain hinside | ⟨es₁, es₂, o, rfl, hinside, hlast⟩ := makes_attempt_bind.1 hrest
    · exact (makes_redirected.1 hinside).imp_right .inl
    · refine .inr (.inr ⟨es₁, es₂, o, rfl, ends_redirected.1 hinside, ?_⟩)
      obtain hclose' | ⟨es₂, es₃, ⟨⟩, rfl, hclose', hend⟩ := makes_bind.1 hlast
      · exact Wiring.makes_close.1 hclose'
      · obtain ⟨rfl, -⟩ := Wiring.ends_close.1 hclose'
        cases o <;> cases hend <;> simp
  · have hclosed : Eval.Ends (wiring.split (form.redirs.map (·.fd))).1.close _ (.ok ()) := Wiring.ends_close.2 ⟨rfl, rfl⟩
    rintro (hclose | ⟨es', rfl, hredirect | hbody | ⟨es₁, es₂, o, rfl, hinside, hclose'⟩⟩)
    · exact makes_bind.2 (.inl (Wiring.makes_close.2 hclose))
    · exact makes_bind.2 (.inr ⟨_, _, (), rfl, hclosed, makes_attempt_bind.2 (.inl (makes_redirected.2 (.inl hredirect)))⟩)
    · exact makes_bind.2 (.inr ⟨_, _, (), rfl, hclosed, makes_attempt_bind.2 (.inl (makes_redirected.2 (.inr hbody)))⟩)
    · exact makes_bind.2
        (.inr ⟨_, _, (), rfl, hclosed, makes_attempt_bind.2 (.inr ⟨es₁, es₂, o, rfl, ends_redirected.2 hinside,
        makes_bind.2 (.inl (Wiring.makes_close.2 hclose'))⟩)⟩)

end

/-- The law of redirections. -/
structure Redirection (e : Evaluator) (form : Code.Form) (ctx : Context) (wiring : Wiring) : Prop where
  /-- A run that ends closes the pipe ends that are not taken, makes the redirections, runs the form under the table
  that they come to unless one of them fails, and closes the pipe ends that were taken. -/
  ends : ∀ es o, (e.evalForm form ctx wiring).Ends es o ↔
    ∃ es' o', es = (wiring.split (form.redirs.map (·.fd))).1.closings ++
    (es' ++ (wiring.split (form.redirs.map (·.fd))).2.closings) ∧ e.Inside form ctx wiring es' o' ∧
    o = o'.mapError (·.passing form.place)
  /-- A run that is going on has got so far. -/
  underway : ∀ es, (e.evalForm form ctx wiring).Makes es ↔ es <+: (wiring.split (form.redirs.map (·.fd))).1.closings ∨
    ∃ es', es = (wiring.split (form.redirs.map (·.fd))).1.closings ++ es' ∧
      ((e.redirect ctx form.redirs (form.table ctx wiring)).Makes es' ∨
        (∃ es₁ es₂ t, es' = es₁ ++ es₂ ∧ e.Redirects ctx form.redirs (form.table ctx wiring) es₁ (.ok t) ∧
          (e.body form ctx t).Makes es₂) ∨
        ∃ es₁ es₂ o, es' = es₁ ++ es₂ ∧ e.Inside form ctx wiring es₁ o ∧
        es₂ <+: (wiring.split (form.redirs.map (·.fd))).2.closings)
  /-- The pipe ends that are not taken are those of the redirected descriptors. -/
  unused : (wiring.split (form.redirs.map (·.fd))).1 =
    ⟨if 0 ∈ form.redirs.map (·.fd) then wiring.input else none, if 1 ∈ form.redirs.map (·.fd) then wiring.output else none⟩
  /-- The table at first: that around the form, with the pipe ends in it but where a descriptor is redirected. -/
  wired : ∀ fd, (form.table ctx wiring).get? fd =
    if fd ∈ form.redirs.map (·.fd) then ctx.descriptors.get? fd else (wiring.end? fd).or (ctx.descriptors.get? fd)
  /-- To make a redirection is to give its descriptor a connection or to close it, and is of no account to the others. -/
  sets : ∀ (t : Descriptors) (fd : Nat) (p : Option Connection), (t.set fd p).get? = Function.update t.get? fd p
  /-- The others are as they were in the end, too. -/
  kept : ∀ {es t fd}, e.Redirects ctx form.redirs (form.table ctx wiring) es (.ok t) → fd ∉ form.redirs.map (·.fd) →
    t.get? fd = (wiring.end? fd).or (ctx.descriptors.get? fd)
  /-- The redirected ones have what was opened or duplicated for them. -/
  cameBy : ∀ {es t fd p}, e.Redirects ctx form.redirs (form.table ctx wiring) es (.ok t) → t.get? fd = some p →
    e.CameBy ctx form.redirs (form.table ctx wiring) es fd p
  /-- What comes after a pipeline runs under the table around it. -/
  caller : ∀ (p : Code.Pipeline) (ps : List Code.Pipeline) (es : List Exchange) (o : Outcome),
    (e.evalPipelines ctx (p :: ps)).Ends es o ↔ (∃ ex, (e.evalPipeline p ctx).Ends es (.error ex) ∧ o = .error ex) ∨
      ∃ es₁ es₂, es = es₁ ++ es₂ ∧ (e.evalPipeline p ctx).Ends es₁ (.ok ()) ∧ (e.evalPipelines ctx ps).Ends es₂ o

/-- The law holds of all forms, in all surroundings, and for all answers that their requests get. -/
theorem redirection (e : Evaluator) (form : Code.Form) (ctx : Context) (wiring : Wiring) :
    e.Redirection form ctx wiring where
  ends _ _ := ends_evalForm
  underway _ := makes_evalForm
  unused := by
    unfold Wiring.split
    simp only [List.contains_iff_mem]
  wired fd := by
    unfold Code.Form.table
    rw [Wiring.get?_install, Wiring.end?_split]
    split <;> simp
  kept {es t fd} h hfd := by
    rw [h.kept rfl hfd, Code.Form.table, Wiring.get?_install, Wiring.end?_split, if_neg hfd]
  sets := Descriptors.get?_set
  cameBy h hp := h.cameBy hp
  caller p ps es o :=
    ends_bind.trans (or_congr .rfl ⟨fun ⟨es₁, es₂, ⟨⟩, h⟩ => ⟨es₁, es₂, h⟩, fun ⟨es₁, es₂, h⟩ => ⟨es₁, es₂, (), h⟩⟩)

end Evaluator

end DualShell
