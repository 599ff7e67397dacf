import DualShell.Compile.Program
import DualShell.Proofs.Scope.Static

/-!
# Resolution stays in the innermost frame

A resolution threads a scope, and the scope it leaves counts whether it succeeds or fails. A `Compile.Movement` is a way
from scope to scope that everything done to a scope follows; then every resolution follows it from beginning to end,
wherever it stops (`compileChunk_moves`). So all that resolving a piece of program does to the frames around the
innermost one is to record captures, and a lambda does no more to the innermost one (`Compile.innermost_only`).
-/

namespace DualShell

/-- A way from scope to scope, in any number of steps. -/
structure Compile.Drift where
  Leads : Scope → Scope → Prop
  refl : ∀ s, Leads s s
  trans : ∀ {s t u}, Leads s t → Leads t u → Leads s u

/-- A way from scope to scope that everything done to a scope follows. -/
structure Compile.Movement extends Compile.Drift where
  resolve : ∀ s name, Leads s (s.resolve name).2
  resolveUp : ∀ s name, Leads s (s.resolveUp name).2
  declare : ∀ s name, Leads s (s.declare name)
  undeclare : ∀ s name, Leads s (s.undeclare name)
  /-- A frame is opened for some names, and closed again. -/
  close : ∀ {s t : Scope} {names : List String}, Leads (names.foldl Scope.declare s.push) t → Leads s t.pop.2

/-- Wherever the resolution stops, it has moved the scope that way. -/
def Compile.Moves (D : Compile.Drift) {α : Type} (x : Compile α) : Prop := ∀ s, D.Leads s (x.run.run s).2

namespace Compile

variable {D : Drift} {M : Movement} {α β : Type}

namespace Moves

theorem pure {a : α} : (Pure.pure a : Compile α).Moves D := D.refl

/-- A fault changes no scope, so it moves wherever it likes. -/
theorem fault {span : Span} {f : CompileFault} : (Compile.fault span f : Compile α).Moves D := D.refl

/-- Resolution moves the scope part by part. -/
theorem bind {x : Compile α} {f : α → Compile β} (hx : x.Moves D) (hf : ∀ a, (f a).Moves D) : (x >>= f).Moves D := by
  intro s
  rw [ExceptT.run_bind, StateT.run_bind]
  have hs := hx s
  rcases hr : x.run.run s with ⟨r, t⟩
  rw [hr] at hs
  cases r with
  | ok a => exact D.trans hs (hf a t)
  | error e => exact hs

/-- What comes last of all makes the result of what comes before it. -/
theorem map {x : Compile α} {f : α → β} (hx : x.Moves D) : (x >>= fun a => Pure.pure (f a)).Moves D :=
  .bind hx fun _ => .pure

end Moves

/-- A look-up is one of the movements, and so are the other operations on a scope. -/
theorem resolve_moves (name : String) : (Compile.resolve name).Moves M.toDrift := fun s => M.resolve s name

theorem resolveUp_moves (name : String) : (Compile.resolveUp name).Moves M.toDrift := fun s => M.resolveUp s name

theorem declare_moves (name : String) : (Compile.declare name).Moves M.toDrift := fun s => M.declare s name

theorem isLocal_moves (name : String) : (Compile.isLocal name).Moves D := fun s => D.refl s

theorem undeclare_moves (name : String) : (Compile.undeclare name).Moves M.toDrift := fun s => M.undeclare s name

/-- What is resolved in a frame of its own moves what is around it. -/
theorem inFrame_moves (names : List String) {body : Compile α} (hbody : body.Moves M.toDrift) :
    (inFrame names body).Moves M.toDrift := fun s =>
  M.close (hbody (names.foldl Scope.declare s.push))

end Compile

open Compile

variable {D : Drift} {M : Movement}

/-! ## Checks and names -/

section Names

variable (span : Span)

/-- The signature of a lambda is checked without a look at the scope, and so are the other checks. -/
theorem signature_moves (seen : List String) (ps : List Param) : (signature span seen ps).Moves D := by
  induction ps generalizing seen with
  | nil => exact .pure
  | cons p ps ih =>
    unfold signature
    split
    · exact .fault
    · split
      · exact .fault
      · split
        · split
          · exact .pure
          · exact .fault
        · exact ih _

theorem checkFd_moves (fd : UInt32) : (checkFd span fd).Moves D := by
  unfold checkFd
  split
  · exact .pure
  · exact .fault

theorem checkTargets_moves (targets : List Source.Target) : (checkTargets span targets).Moves D := by
  unfold checkTargets
  dsimp only
  split
  · exact .fault
  · split
    · exact .fault
    · exact .pure

theorem checkIndexable_moves (name : String) (ref : Ref) : (checkIndexable span name ref).Moves D := by
  cases ref with
  | env n => exact .fault
  | _ => exact .pure

theorem checkTemporary_moves (targets : List Source.Target) : (checkTemporary span targets).Moves D := by
  unfold checkTemporary
  split
  · exact .fault
  · exact .pure

theorem checkWritable_moves (ref : Ref) : (checkWritable span ref).Moves D := by
  unfold checkWritable
  split
  · exact .pure
  · exact .fault

/-- A name that is read moves as it is looked up. -/
theorem resolveRead_moves (name : String) : (resolveRead span name).Moves M.toDrift := by
  unfold resolveRead
  split
  · split
    · refine .bind (isLocal_moves _) fun b => ?_
      split
      · exact .pure
      · exact .fault
    · split
      · refine .bind (resolveUp_moves _) fun r => ?_
        split
        · exact .pure
        · exact .fault
      · split
        · exact .pure
        · split
          · exact .pure
          · refine .bind (resolve_moves _) fun r => ?_
            split
            · exact .pure
            · exact .fault
  · refine .bind (resolve_moves _) fun r => ?_
    split
    · exact .pure
    · split
      · exact .pure
      · exact .fault

/-- A target moves as it is looked up or declared. -/
theorem resolveTarget_moves (name : String) : (resolveTarget span name).Moves M.toDrift := by
  unfold resolveTarget
  split
  · exact .fault
  · split
    · split
      · exact .map (declare_moves _)
      · split
        · exact .pure
        · exact .bind (resolveRead_moves span _) fun ref => .map (checkWritable_moves span ref)
    · refine .bind (resolve_moves _) fun r => ?_
      split
      · exact .pure
      · split
        · exact .fault
        · exact .map (declare_moves _)

/-- A head moves as it is looked up. -/
theorem resolveHead_moves (name : String) : (resolveHead span name).Moves M.toDrift := by
  unfold resolveHead
  split
  · exact .pure
  · split
    · exact .pure
    · split
      · exact .map (resolveRead_moves span _)
      · refine .bind (resolve_moves _) fun r => ?_
        split
        · exact .pure
        · split <;> exact .pure

/-- A lambda moves what the frame of its body does. -/
theorem lambdaWith_moves (src : String) (params : List Param) {body : Compile Code.Block}
    (hbody : ∀ names, (inFrame names body).Moves D) : (lambdaWith src span params body).Moves D :=
  .bind (signature_moves span [] params) fun sig => .map (hbody (sig.params ++ sig.rest.toList))

theorem compileUse_moves (args : List Source.Word) : (compileUse span args).Moves M.toDrift := by
  unfold compileUse
  extract_lets load
  have hload : ∀ use, (load use).Moves M.toDrift := by
    intro use
    dsimp only [load]
    split
    · exact .fault
    · split
      · exact .fault
      · exact .map (declare_moves _)
  split
  · rename_i spec
    exact hload (spec.literal?, none)
  · rename_i spec alias_
    exact hload (spec.literal?, some alias_)
  · exact .bind .fault hload

end Names

/-! ## Programs -/

/-- The resolution of a word, and of what it is made of, moves the scope that way. -/
structure Source.Word.Moves (M : Movement) (src : String) (w : Source.Word) : Prop where
  word : ∀ span, (compileWord src span w).Moves M.toDrift
  body : ∀ params body, w = .lambda params body → (compileChunk src body).Moves M.toDrift
  indices : ∀ base is, w = .index base is → ∀ span, (compileWords src span is).Moves M.toDrift

namespace Source.Word.Moves

variable {src : String} {w : Source.Word} {ws : List Source.Word} (span : Span)

theorem inline (hw : w.Moves M src) (what : String) : (compileInline src span what w).Moves M.toDrift := by
  unfold compileInline
  split
  · exact hw.body _ _ rfl
  · exact .fault

theorem branches : (ws : List Source.Word) → (∀ w ∈ ws, w.Moves M src) → (compileBranches src span ws).Moves M.toDrift
  | [], _ => .fault
  | [condition], h => by
    unfold compileBranches
    exact .bind ((h condition (by simp)).word span) fun _ => .fault
  | [condition, body], h => by
    unfold compileBranches
    exact .bind ((h condition (by simp)).word span) fun _ => .map ((h body (by simp)).inline span _)
  | condition :: body :: next :: rest, h => by
    unfold compileBranches
    refine .bind ((h condition (by simp)).word span) fun condition => .bind ((h body (by simp)).inline span _) fun body => ?_
    split
    · exact .map (branches rest fun w hw => h w (by simp [hw]))
    · split
      · split
        · exact .fault
        · rename_i otherwise rest
          refine .bind ((h otherwise (by simp)).inline span _) fun otherwise => ?_
          split
          · exact .pure
          · exact .fault
      · exact .fault

theorem otherwise (h : ∀ w ∈ ws, w.Moves M src) (form : String) : (compileElse src span form ws).Moves M.toDrift := by
  unfold compileElse
  split
  · exact .pure
  · rename_i keyword body
    split
    · exact .map ((h body (by simp)).inline span _)
    · exact .fault
  · exact .fault

theorem whileLoop (h : ∀ w ∈ ws, w.Moves M src) : (compileWhile src span ws).Moves M.toDrift := by
  unfold compileWhile
  split
  · exact .fault
  · rename_i condition
    exact .bind ((h condition (by simp)).word span) fun _ => .fault
  · rename_i condition body rest
    refine .bind ((h condition (by simp)).word span) fun condition => .bind ((h body (by simp)).inline span _) fun body => ?_
    exact .map (otherwise span (fun w hw => h w (by simp [hw])) _)

theorem forLoop (h : ∀ w ∈ ws, w.Moves M src) : (compileFor src span ws).Moves M.toDrift := by
  unfold compileFor
  split
  · exact .fault
  · rename_i name container
    exact .bind ((h container (by simp)).word span) fun _ => .bind (resolveTarget_moves span name) fun _ => .fault
  · rename_i name container body rest
    refine .bind ((h container (by simp)).word span) fun container => .bind (resolveTarget_moves span name) fun ref => ?_
    refine .bind ((h body (by simp)).inline span _) fun body => ?_
    exact .map (otherwise span (fun w hw => h w (by simp [hw])) _)
  · exact .fault

theorem clauses (stage : Nat) :
    (ws : List Source.Word) → (∀ w ∈ ws, w.Moves M src) → (compileClauses src span stage ws).Moves M.toDrift
  | [], _ => .pure
  | [keyword], _ => by
    unfold compileClauses
    split
    · exact .fault
    · split
      · exact .fault
      · split <;> exact .fault
  | keyword :: next :: rest, h => by
    have hrest : ∀ w ∈ rest, w.Moves M src := fun w hw => h w (by simp [hw])
    unfold compileClauses
    split
    · split
      · exact .bind (resolveTarget_moves span _) fun _ => .fault
      · rename_i name body rest
        refine .bind (resolveTarget_moves span _) fun ref => .bind ((h body (by simp)).inline span _) fun body => ?_
        exact .map (clauses 1 rest fun w hw => h w (by simp [hw]))
      · exact .bind ((h next (by simp)).inline span _) fun body => .map (clauses 1 rest hrest)
    · split
      · exact .bind ((h next (by simp)).inline span _) fun body => .map (clauses 2 rest hrest)
      · split
        · exact .bind ((h next (by simp)).inline span _) fun body => .map (clauses 3 rest hrest)
        · exact .fault

theorem attempt (h : ∀ w ∈ ws, w.Moves M src) : (compileTry src span ws).Moves M.toDrift := by
  unfold compileTry
  split
  · exact .fault
  · rename_i body rest
    refine .bind ((h body (by simp)).inline span _) fun body => ?_
    refine .bind (clauses span 0 rest fun w hw => h w (by simp [hw])) fun clauses => ?_
    split
    · exact .fault
    · exact .pure

theorem define (h : ∀ w ∈ ws, w.Moves M src) : (compileFn src span ws).Moves M.toDrift := by
  unfold compileFn
  split
  · rename_i name params body
    split
    · exact .fault
    · have hbody := (h (.lambda params body) (by simp)).body params body rfl
      exact .bind (declare_moves _) fun _ => .map (lambdaWith_moves span src params fun names => inFrame_moves names hbody)
  · exact .fault

theorem deletions : (ws : List Source.Word) → (∀ w ∈ ws, w.Moves M src) → (compileDeletions src span ws).Moves M.toDrift
  | [], _ => .pure
  | w :: rest, h => by
    have hrest := deletions rest fun w hw => h w (by simp [hw])
    unfold compileDeletions
    split
    · exact .pure
    · rename_i he
      cases he
      refine .bind (undeclare_moves _) fun b => ?_
      split
      · exact .map hrest
      · exact .fault
    · rename_i name indices _ he
      cases he
      refine .bind (resolveRead_moves span name) fun ref => .bind (checkWritable_moves span ref) fun _ => ?_
      exact .bind ((h (.index (.bare name) indices) List.mem_cons_self).indices _ indices rfl span) fun is => .map hrest
    · exact .fault
    · exact .fault

end Source.Word.Moves

variable (src : String)

mutual

/-- Wherever the resolution of a chunk stops, it has moved the scope that way. -/
theorem compileChunk_moves : (c : Source.Chunk) → (compileChunk src c).Moves M.toDrift
  | ⟨ps⟩ => by
    unfold compileChunk
    exact .map (compilePipelines_moves ps)

/-- Programs move the scope as their parts do; the following are the cases of pipelines, forms and words. -/
theorem compilePipelines_moves : (ps : List Source.Pipeline) → (compilePipelines src ps).Moves M.toDrift
  | [] => .pure
  | p :: ps => by
    unfold compilePipelines
    exact .bind (compilePipeline_moves p) fun _ => .map (compilePipelines_moves ps)

theorem compilePipeline_moves : (p : Source.Pipeline) → (compilePipeline src p).Moves M.toDrift
  | ⟨forms, background, span⟩ => by
    unfold compilePipeline
    exact .map (compileForms_moves forms)

theorem compileForms_moves : (fs : List Source.Form) → (compileForms src fs).Moves M.toDrift
  | [] => .pure
  | f :: fs => by
    unfold compileForms
    exact .bind (compileForm_moves f) fun _ => .map (compileForms_moves fs)

theorem compileForm_moves : (f : Source.Form) → (compileForm src f).Moves M.toDrift
  | ⟨temps, body, redirs, span⟩ => by
    unfold compileForm
    refine .bind (compileRedirs_moves span redirs) fun _ => .bind (compileTemps_moves span temps) fun _ => ?_
    exact .map (compileBody_moves span body)

theorem compileRedirs_moves (span : Span) : (rs : List Source.Redir) → (compileRedirs src span rs).Moves M.toDrift
  | [] => .pure
  | ⟨fd, mode, target⟩ :: rs => by
    unfold compileRedirs
    refine .bind (checkFd_moves span fd) fun _ => .bind (compileRedirTarget_moves span mode target) fun _ => ?_
    exact .map (compileRedirs_moves span rs)

theorem compileRedirTarget_moves (span : Span) (mode : RedirMode) :
    (target : Source.RedirTarget) → (compileRedirTarget src span mode target).Moves M.toDrift
  | .path word => by
    unfold compileRedirTarget
    exact .map (compileWord_moves span word)
  | .fd n => by
    unfold compileRedirTarget
    refine .bind (checkFd_moves span n) fun _ => ?_
    split
    · exact .fault
    · exact .pure
  | .close => .pure

theorem compileTemps_moves (span : Span) : (as : List Source.Assignment) → (compileTemps src span as).Moves M.toDrift
  | [] => .pure
  | a :: as => by
    unfold compileTemps
    refine .bind (checkTemporary_moves span a.targets) fun _ => .bind (compileAssign_moves span a) fun _ => ?_
    exact .map (compileTemps_moves span as)

theorem compileAssign_moves (span : Span) : (a : Source.Assignment) → (compileAssign src span a).Moves M.toDrift
  | ⟨targets, values⟩ => by
    unfold compileAssign
    refine .bind (compileWords_moves span values) fun _ => .bind (checkTargets_moves span targets) fun _ => ?_
    exact .map (compileTargets_moves span targets)

theorem compileTargets_moves (span : Span) : (ts : List Source.Target) → (compileTargets src span ts).Moves M.toDrift
  | [] => .pure
  | ⟨name, [], rest⟩ :: ts => by
    unfold compileTargets
    exact .bind (resolveTarget_moves span name) fun _ => .map (compileTargets_moves span ts)
  | ⟨name, i :: is, rest⟩ :: ts => by
    unfold compileTargets
    refine .bind (resolveRead_moves span name) fun ref => .bind (checkWritable_moves span ref) fun _ => ?_
    refine .bind (checkIndexable_moves span name ref) fun _ => .bind (compileWords_moves span (i :: is)) fun _ => ?_
    exact .map (compileTargets_moves span ts)

theorem compileBody_moves (span : Span) : (b : Source.Body) → (compileBody src span b).Moves M.toDrift
  | .assign a => by
    unfold compileBody
    exact .map (compileAssign_moves span a)
  | .command c => compileCommand_moves span c

theorem compileCommand_moves (span : Span) : (c : Source.Command) → (compileCommand src span c).Moves M.toDrift
  | ⟨head, args, opts⟩ => by
    have hcall : ∀ {γ : Type} {x : Compile γ} (toHead : γ → Code.Head), x.Moves M.toDrift → (do
        let a ← x
        let args ← compileWords src span args
        let opts ← compileOpts src span opts
        return .call ⟨toHead a, args, opts⟩ : Compile Code.Action).Moves M.toDrift := by
      intro γ x toHead hx
      exact .bind hx fun _ => .bind (compileWords_moves span args) fun _ => .map (compileOpts_moves span opts)
    have hdynamic := compileWord_moves span head
    have hwords := compileWords_moves span args
    have hargs := words_moves args
    cases head with
    | bare name =>
      unfold compileCommand
      split
      · split
        · exact .fault
        · split
          · exact .map (Source.Word.Moves.branches span args hargs)
          · exact .map (Source.Word.Moves.whileLoop span hargs)
          · exact .map (Source.Word.Moves.forLoop span hargs)
          · exact .map (Source.Word.Moves.attempt span hargs)
          · exact .map (Source.Word.Moves.define span hargs)
          · exact .map hwords
          · exact .map hwords
          · exact .map (Source.Word.Moves.deletions span args hargs)
          · exact .map (compileUse_moves span args)
      · exact hcall id (resolveHead_moves span name)
    | quoted name =>
      unfold compileCommand
      exact hcall id (resolveHead_moves span name)
    | _ =>
      unfold compileCommand
      exact hcall .dynamic hdynamic

theorem compileOpts_moves (span : Span) : (os : List Source.Opt) → (compileOpts src span os).Moves M.toDrift
  | [] => .pure
  | ⟨name, value⟩ :: os => by
    unfold compileOpts
    exact .bind (compileWord_moves span value) fun _ => .map (compileOpts_moves span os)

theorem compileWords_moves (span : Span) : (ws : List Source.Word) → (compileWords src span ws).Moves M.toDrift
  | [] => .pure
  | w :: ws => by
    unfold compileWords
    exact .bind (compileWord_moves span w) fun _ => .map (compileWords_moves span ws)

theorem compilePairs_moves (span : Span) :
    (ps : List (Source.Word × Source.Word)) → (compilePairs src span ps).Moves M.toDrift
  | [] => .pure
  | (k, v) :: ps => by
    unfold compilePairs
    exact .bind (compileWord_moves span k) fun _ => .bind (compileWord_moves span v) fun _ =>
      .map (compilePairs_moves span ps)

theorem compileWord_moves (span : Span) : (w : Source.Word) → (compileWord src span w).Moves M.toDrift
  | .bare s => .pure
  | .quoted s => .pure
  | .variable name explode => by
    unfold compileWord
    exact .map (resolveRead_moves span name)
  | .index base indices => by
    unfold compileWord
    exact .bind (compileWord_moves span base) fun _ => .map (compileWords_moves span indices)
  | .list items => by
    unfold compileWord
    exact .map (compileWords_moves span items)
  | .map pairs => by
    unfold compileWord
    exact .map (compilePairs_moves span pairs)
  | .lambda params body => by
    unfold compileWord
    exact .map (lambdaWith_moves span src params fun names => inFrame_moves names (compileChunk_moves body))
  | .capture body => by
    unfold compileWord
    exact .map (compileChunk_moves body)
  | .rescue body => by
    unfold compileWord
    exact .map (compileChunk_moves body)
  | .compound [part] => by
    unfold compileWord
    exact compileWord_moves span part
  | .compound [] => .pure
  | .compound (p :: p' :: parts) => by
    unfold compileWord
    exact .map (compileWords_moves span (p :: p' :: parts))
  | .wildcard pattern mayMiss => .pure

/-- The body of a lambda moves. -/
theorem chunk_of_word_moves : (w : Source.Word) → ∀ params body, w = .lambda params body →
    (compileChunk src body).Moves M.toDrift
  | .lambda _ body => fun _ _ h => by
    cases h
    exact compileChunk_moves body
  | .bare _ | .quoted _ | .variable _ _ | .index _ _ | .list _ | .map _ | .capture _ | .rescue _ | .compound _
      | .wildcard _ _ =>
    fun _ _ h => nomatch h

/-- The indices of a word move. -/
theorem indices_of_word_moves : (w : Source.Word) → ∀ base is, w = .index base is →
    ∀ span, (compileWords src span is).Moves M.toDrift
  | .index _ is => fun _ _ h span => by
    cases h
    exact compileWords_moves span is
  | .bare _ | .quoted _ | .variable _ _ | .list _ | .map _ | .lambda _ _ | .capture _ | .rescue _ | .compound _
      | .wildcard _ _ =>
    fun _ _ h => nomatch h

/-- Words move the scope one after another. -/
theorem words_moves : (ws : List Source.Word) → ∀ w ∈ ws, w.Moves M src
  | [] => fun _ hw => nomatch hw
  | w :: ws => List.forall_mem_cons.2
    ⟨⟨fun span => compileWord_moves span w, chunk_of_word_moves w, indices_of_word_moves w⟩, words_moves ws⟩

end

/-! ## What a resolution does to the frames -/

/-- Whether a name is bound or taken along here. -/
def StaticFrame.knows (f : StaticFrame) (name : String) : Bool :=
  f.hasLocal name || f.hasCapture name

/-- A name is reached if one of the frames knows it. -/
theorem Scope.reach_isSome (name : String) (fs : List StaticFrame) :
    (Scope.reach name fs).isSome = fs.any (·.knows name) := by
  induction fs with
  | nil => rfl
  | cons f fs ih =>
    rw [Scope.reach, List.any_cons, StaticFrame.knows, ← ih]
    split
    · simp [*]
    · split
      · simp [*]
      · cases Scope.reach name fs <;> simp [*]

/-- Exactly the names that some frame knows are found. -/
theorem Scope.resolve_isSome (s : Scope) (name : String) : (s.resolve name).1.isSome = s.frames.any (·.knows name) := by
  rw [Scope.frames, List.any_cons, StaticFrame.knows, ← Scope.reach_isSome, Scope.resolve, Scope.captureInner]
  split
  · simp [*]
  · split
    · simp [*]
    · cases Scope.reach name s.outer <;> simp [*]

/-- Frames from the inside out that bind what they bound and took more names along, each of which was known there or
further out. -/
inductive FramesTook : List StaticFrame → List StaticFrame → Prop
  | nil : FramesTook [] []
  | cons {f g : StaticFrame} {fs gs : List StaticFrame} (grew : f.GrewTo g)
    (known : ∀ name, (g :: gs).any (·.knows name) = (f :: fs).any (·.knows name)) (further : FramesTook fs gs) :
    FramesTook (f :: fs) (g :: gs)

namespace FramesTook

variable {fs gs hs : List StaticFrame}

/-- Frames take nothing along from themselves. -/
theorem refl : (fs : List StaticFrame) → FramesTook fs fs
  | [] => .nil
  | f :: fs => .cons (.refl f) (fun _ => rfl) (refl fs)

/-- What is taken along is so step by step. -/
theorem trans (h : FramesTook fs gs) (h' : FramesTook gs hs) : FramesTook fs hs := by
  induction h generalizing hs with
  | nil => exact h'
  | cons grew known _ ih =>
    cases h' with
    | cons grew' known' further' =>
      exact .cons (grew.trans grew') (fun name => (known' name).trans (known name)) (ih further')

/-- Frames that took something along grew. -/
theorem grew (h : FramesTook fs gs) : FramesGrew fs gs := by
  induction h with
  | nil => exact .nil
  | cons grew _ _ ih => exact .cons grew ih

/-- What is taken along was known before. -/
theorem known (h : FramesTook fs gs) (name : String) : gs.any (·.knows name) = fs.any (·.knows name) := by
  cases h with
  | nil => rfl
  | cons _ known _ => exact known name

/-- What is taken along changes no local name. -/
theorem locals (h : FramesTook fs gs) : gs.map (·.locals) = fs.map (·.locals) := by
  induction h with
  | nil => rfl
  | cons grew _ _ ih => rw [List.map_cons, List.map_cons, grew.locals, ih]

end FramesTook

/-- A frame knows what it takes along, and what it knew. -/
theorem StaticFrame.knows_addCapture (f : StaticFrame) (name : String) (source : CaptureSource) (n : String) :
    (f.addCapture name source).knows n = (f.knows n || name == n) := by
  simp [StaticFrame.knows, StaticFrame.hasLocal, StaticFrame.hasCapture, StaticFrame.addCapture, Bool.or_assoc]

/-- A lookup records a capture only where the name is known further out. -/
theorem Scope.reach_took {name : String} {source : CaptureSource} {fs gs : List StaticFrame}
    (h : Scope.reach name fs = some (source, gs)) : FramesTook fs gs := by
  induction fs generalizing source gs with
  | nil => cases h
  | cons f fs ih =>
    have hknown : (f :: fs).any (·.knows name) = true := by rw [← Scope.reach_isSome, h]; rfl
    unfold Scope.reach at h
    split at h
    · cases h
      exact .refl _
    · dsimp only at h
      split at h
      · cases h
        exact .refl _
      · split at h
        · cases h
        · rename_i inner gs' hreach
          cases h
          have htook := ih hreach
          refine .cons (StaticFrame.grewTo_addCapture ..) (fun n => ?_) htook
          rw [List.any_cons, StaticFrame.knows_addCapture, htook.known, List.any_cons]
          by_cases hn : name = n
          · subst hn
            rw [List.any_cons] at hknown
            rw [hknown]
            simp
          · rw [beq_false_of_ne hn, Bool.or_false]

/-- The frames around the innermost one took names along, and so did the innermost one. -/
structure Scope.Keeps (s t : Scope) : Prop where
  outer : FramesTook s.outer t.outer
  captures : s.inner.captures <+: t.inner.captures

/-- A capture keeps the names of frames. -/
theorem Scope.keeps_captureInner {s t : Scope} {name : String} (h : s.captureInner name = some t) : s.Keeps t := by
  unfold Scope.captureInner at h
  split at h
  · cases h
  · rename_i hreach
    cases h
    refine ⟨Scope.reach_took hreach, ?_⟩
    dsimp only
    split
    · exact List.prefix_refl _
    · exact List.prefix_append _ _

/-- What is done in a frame of its own is to every frame that stays what anything is to the frames around the innermost
one. -/
theorem Scope.Keeps.frames_pop {s t : Scope} {names : List String} (h : (names.foldl Scope.declare s.push).Keeps t) :
    FramesTook s.frames t.pop.2.frames := by
  have houter := h.outer
  rw [Scope.outer_declareAll] at houter
  unfold Scope.pop
  cases hout : t.outer with
  | nil => rw [hout] at houter; cases houter
  | cons f fs => rwa [hout] at houter

/-- A look-up keeps the names of frames. -/
theorem Scope.keeps_resolve (s : Scope) (name : String) : s.Keeps (s.resolve name).2 := by
  unfold Scope.resolve
  split
  · exact ⟨.refl _, List.prefix_refl _⟩
  · split
    · exact ⟨.refl _, List.prefix_refl _⟩
    · split
      · exact ⟨.refl _, List.prefix_refl _⟩
      · exact Scope.keeps_captureInner ‹_›

/-- A look-up from outside the innermost frame keeps the names of frames. -/
theorem Scope.keeps_resolveUp (s : Scope) (name : String) : s.Keeps (s.resolveUp name).2 := by
  unfold Scope.resolveUp
  split
  · exact ⟨.refl _, List.prefix_refl _⟩
  · exact Scope.keeps_captureInner ‹_›

/-- A declaration keeps the names of the frames around. -/
theorem Scope.keeps_declare (s : Scope) (name : String) : s.Keeps (s.declare name) := by
  refine ⟨.refl _, ?_⟩
  show s.inner.captures <+: (s.inner.declare name).captures
  unfold StaticFrame.declare
  split <;> exact List.prefix_refl _

/-- Resolution keeps the frames around the innermost one. -/
def Compile.keeping : Compile.Movement where
  Leads := Scope.Keeps
  refl _ := ⟨.refl _, List.prefix_refl _⟩
  trans h h' := ⟨h.outer.trans h'.outer, h.captures.trans h'.captures⟩
  resolve := Scope.keeps_resolve
  resolveUp := Scope.keeps_resolveUp
  declare := Scope.keeps_declare
  undeclare s name := ⟨.refl _, List.prefix_refl _⟩
  close h := by
    cases h.frames_pop with
    | cons grew _ further => exact ⟨further, grew.captures⟩

/-- Wherever a resolution stops: as many frames are open as before, those around the innermost one bind what they bound,
and every frame only took more names along. -/
structure Compile.StaysInside {α : Type} (x : Compile α) : Prop where
  depth : ∀ s, (x.run.run s).2.depth = s.depth
  locals : ∀ s, (x.run.run s).2.outer.map (·.locals) = s.outer.map (·.locals)
  captures : ∀ s, List.Forall₂ (fun f g => f.captures <+: g.captures) s.frames (x.run.run s).2.frames

/-- Wherever a resolution stops, it bound and unbound nothing at all, and exactly the names that were found before are
found after it. -/
structure Compile.BindsNothing {α : Type} (x : Compile α) : Prop where
  inside : x.StaysInside
  locals : ∀ s, (x.run.run s).2.inner.locals = s.inner.locals
  found : ∀ s name, ((x.run.run s).2.resolve name).1.isSome = (s.resolve name).1.isSome

/-- Resolution that keeps the names around stays inside. -/
theorem Compile.Moves.staysInside {α : Type} {x : Compile α} (h : x.Moves keeping.toDrift) : x.StaysInside where
  depth s := congrArg (· + 1) (h s).outer.grew.length_eq.symm
  locals s := (h s).outer.locals
  captures s := .cons (h s).captures ((h s).outer.grew.imp fun _ _ h => h.captures)

/-- Nothing but names taken along in all the frames that stay. -/
def Compile.taking : Compile.Drift where
  Leads s t := FramesTook s.frames t.frames
  refl s := .refl s.frames
  trans h h' := h.trans h'

/-- What is resolved in a frame of its own takes along at most. -/
theorem Compile.inFrame_taking {α : Type} {body : Compile α} (h : body.Moves keeping.toDrift) (names : List String) :
    (inFrame names body).Moves taking := fun s => (h (names.foldl Scope.declare s.push)).frames_pop

/-- Resolution that takes along at most binds nothing. -/
theorem Compile.Moves.bindsNothing {α : Type} {x : Compile α} (h : x.Moves taking) : x.BindsNothing where
  inside :=
    ⟨fun s => (h s).grew.length_eq.symm, fun s => (List.cons.inj (h s).locals).2, fun s => (h s).grew.imp fun _ _ h =>
      h.captures⟩
  locals s := (List.cons.inj (h s).locals).1
  found s name := by rw [Scope.resolve_isSome, Scope.resolve_isSome, (h s).known]

/-- A definition binds its function, and nothing of what its parameters and its body bind. -/
theorem Compile.binds_define (src : String) (span : Span) (name : String) (params : List Param) (body : Source.Chunk)
    (s : Scope) : ∀ n ∈ ((compileFn src span [.bare name, .lambda params body]).run.run s).2.inner.locals,
      n ∈ s.inner.locals ∨ n = name ++ "~" := by
  have hbody : (compileChunk src body).Moves keeping.toDrift := compileChunk_moves src body
  have hlambda : (lambdaWith src span params (compileChunk src body) >>= fun l =>
      (pure (.define (.local (name ++ "~")) l) : Compile Code.Special)).Moves taking :=
    .map (lambdaWith_moves span src params (inFrame_taking hbody))
  intro n hn
  unfold compileFn at hn
  split at hn
  · exact .inl hn
  · change n ∈ ((lambdaWith src span params (compileChunk src body) >>= fun l =>
      (pure (.define (.local (name ++ "~")) l) : Compile Code.Special)).run.run
        (s.declare (name ++ "~"))).2.inner.locals at hn
    rw [hlambda.bindsNothing.locals] at hn
    simp only [Scope.declare, StaticFrame.declare] at hn
    split at hn
    · exact .inl hn
    · simpa using hn

/-- What the resolution of every part of a program leaves of a scope, wherever it stops. -/
structure Compile.InnermostOnly (src : String) : Prop where
  chunk : ∀ c, (compileChunk src c).StaysInside
  pipelines : ∀ ps, (compilePipelines src ps).StaysInside
  pipeline : ∀ p, (compilePipeline src p).StaysInside
  forms : ∀ fs, (compileForms src fs).StaysInside
  form : ∀ f, (compileForm src f).StaysInside
  redirs : ∀ span rs, (compileRedirs src span rs).StaysInside
  redirTarget : ∀ span mode target, (compileRedirTarget src span mode target).StaysInside
  temps : ∀ span as, (compileTemps src span as).StaysInside
  assign : ∀ span a, (compileAssign src span a).StaysInside
  targets : ∀ span ts, (compileTargets src span ts).StaysInside
  body : ∀ span b, (compileBody src span b).StaysInside
  command : ∀ span c, (compileCommand src span c).StaysInside
  opts : ∀ span os, (compileOpts src span os).StaysInside
  words : ∀ span ws, (compileWords src span ws).StaysInside
  pairs : ∀ span ps, (compilePairs src span ps).StaysInside
  word : ∀ span w, (compileWord src span w).StaysInside
  inline : ∀ span what w, (compileInline src span what w).StaysInside
  branches : ∀ span ws, (compileBranches src span ws).StaysInside
  otherwise : ∀ span form ws, (compileElse src span form ws).StaysInside
  whileLoop : ∀ span ws, (compileWhile src span ws).StaysInside
  forLoop : ∀ span ws, (compileFor src span ws).StaysInside
  attempt : ∀ span ws, (compileTry src span ws).StaysInside
  clauses : ∀ span stage ws, (compileClauses src span stage ws).StaysInside
  define : ∀ span ws, (compileFn src span ws).StaysInside
  deletions : ∀ span ws, (compileDeletions src span ws).StaysInside
  load : ∀ span args, (compileUse span args).StaysInside
  /-- Nothing that is bound inside a lambda is there outside. -/
  lambda : ∀ span params body, (compileWord src span (.lambda params body)).BindsNothing
  function : ∀ span name params body s,
    ∀ n ∈ ((compileFn src span [.bare name, .lambda params body]).run.run s).2.inner.locals, n ∈ s.inner.locals ∨
    n = name ++ "~"

/-- Resolving any part of a program touches only the innermost frame, in any scope, whether it succeeds or fails. -/
theorem Compile.innermost_only (src : String) : InnermostOnly src :=
  have words (ws : List Source.Word) : ∀ w ∈ ws, w.Moves keeping src := words_moves src ws
  { chunk := fun c => (compileChunk_moves src c).staysInside
    pipelines := fun ps => (compilePipelines_moves src ps).staysInside
    pipeline := fun p => (compilePipeline_moves src p).staysInside
    forms := fun fs => (compileForms_moves src fs).staysInside
    form := fun f => (compileForm_moves src f).staysInside
    redirs := fun span rs => (compileRedirs_moves src span rs).staysInside
    redirTarget := fun span mode target => (compileRedirTarget_moves src span mode target).staysInside
    temps := fun span as => (compileTemps_moves src span as).staysInside
    assign := fun span a => (compileAssign_moves src span a).staysInside
    targets := fun span ts => (compileTargets_moves src span ts).staysInside
    body := fun span b => (compileBody_moves src span b).staysInside
    command := fun span c => (compileCommand_moves src span c).staysInside
    opts := fun span os => (compileOpts_moves src span os).staysInside
    words := fun span ws => (compileWords_moves src span ws).staysInside
    pairs := fun span ps => (compilePairs_moves src span ps).staysInside
    word := fun span w => (compileWord_moves src span w).staysInside
    inline := fun span what w => ((words [w] w (by simp)).inline span what).staysInside
    branches := fun span ws => (Source.Word.Moves.branches span ws (words ws)).staysInside
    otherwise := fun span form ws => (Source.Word.Moves.otherwise span (words ws) form).staysInside
    whileLoop := fun span ws => (Source.Word.Moves.whileLoop span (words ws)).staysInside
    forLoop := fun span ws => (Source.Word.Moves.forLoop span (words ws)).staysInside
    attempt := fun span ws => (Source.Word.Moves.attempt span (words ws)).staysInside
    clauses := fun span stage ws => (Source.Word.Moves.clauses span stage ws (words ws)).staysInside
    define := fun span ws => (Source.Word.Moves.define span (words ws)).staysInside
    deletions := fun span ws => (Source.Word.Moves.deletions span ws (words ws)).staysInside
    load := fun span args => (compileUse_moves span args).staysInside
    lambda := fun span params body => by
      unfold compileWord
      exact (Moves.map (lambdaWith_moves span src params (inFrame_taking (compileChunk_moves src body)))).bindsNothing
    function := binds_define src }

end DualShell
