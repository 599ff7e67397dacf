import Mathlib
import DualShell.Proofs.Scope.Resolve

/-!
# The grammar of the special forms

`if`, `while`, `for` and `try` have a grammar over the words that follow their name (`Source.Phrase`), in which a body
is a lambda without parameters and a keyword is a word like any other. Words that are a phrase of the form resolve as
the parts of the phrase do. All other words are refused: where they stop being a phrase, or because a part before that
does not resolve (`Compile.phrases_resolve`).
-/

namespace DualShell

open Compile

namespace Source

/-! ## Phrases -/

/-- A word and the body that runs on account of it: a condition, or the container of a loop. -/
structure Arm where
  word : Word
  body : Chunk

def Arm.words (a : Arm) : List Word := [a.word, .lambda [] a.body]

/-- A clause that may be left out. -/
def clauseWords (keyword : String) : Option Chunk → List Word
  | none => []
  | some body => [.bare keyword, .lambda [] body]

/-- The conditions with their bodies, and the else clause. -/
def branchWords (first : Arm) (more : List Arm) (otherwise : Option Chunk) : List Word :=
  first.words ++ (more.flatMap (fun arm => .bare "elif" :: arm.words) ++ clauseWords "else" otherwise)

/-- The clause of a try form that takes over a failure. -/
structure Handler where
  keyword : String
  starts : keyword = "except" ∨ keyword = "catch"
  name : Option String
  body : Chunk

def Handler.words (h : Handler) : List Word :=
  .bare h.keyword :: (h.name.toList.map .bare ++ [.lambda [] h.body])

/-- What follows the body of a try form. -/
structure Sequel where
  handler : Option Handler
  otherwise : Option Chunk
  finally_ : Option Chunk

def Sequel.words (s : Sequel) : List Word :=
  (s.handler.elim [] Handler.words) ++ (clauseWords "else" s.otherwise ++ clauseWords "finally" s.finally_)

/-- Whether a clause is there. -/
def Sequel.Some (s : Sequel) : Prop := s.handler.isSome ∨ s.otherwise.isSome ∨ s.finally_.isSome

variable (src : String) (span : Span)

def Arm.compile (a : Arm) : Compile (Code.Operand × Code.Block) := do
  let word ← compileWord src span a.word
  let body ← compileChunk src a.body
  return (word, body)

def Handler.compile (h : Handler) : Compile Code.Handler := do
  let ref ← h.name.mapM (resolveTarget span)
  let body ← compileChunk src h.body
  return ⟨ref, body⟩

def Sequel.compile (s : Sequel) : Compile Clauses := do
  let handler ← s.handler.mapM (Handler.compile src span)
  let otherwise ← s.otherwise.mapM (compileChunk src)
  let finally_ ← s.finally_.mapM (compileChunk src)
  return ⟨handler, otherwise, finally_⟩

/-- The words that may follow the name of a special form, and how they resolve. -/
inductive Phrase : SpecialForm → List Word → Compile Code.Special → Prop
  | branch (first : Arm) (more : List Arm) (otherwise : Option Chunk) : Phrase .branch (branchWords first more otherwise) do
      let first ← first.compile src span
      let more ← more.mapM (Arm.compile src span)
      let otherwise ← otherwise.mapM (compileChunk src)
      return .branch (first :: more) otherwise
  | whileLoop (arm : Arm) (otherwise : Option Chunk) : Phrase .whileLoop (arm.words ++ clauseWords "else" otherwise) do
      let (condition, body) ← arm.compile src span
      let otherwise ← otherwise.mapM (compileChunk src)
      return .whileLoop condition body otherwise
  | forLoop (name : String) (arm : Arm) (otherwise : Option Chunk) :
    Phrase .forLoop (.bare name :: (arm.words ++ clauseWords "else" otherwise)) do
      let container ← compileWord src span arm.word
      let ref ← resolveTarget span name
      let body ← compileChunk src arm.body
      let otherwise ← otherwise.mapM (compileChunk src)
      return .forLoop ref container body otherwise
  | attempt (body : Chunk) (sequel : Sequel) (some : sequel.Some) : Phrase .attempt (.lambda [] body :: sequel.words) do
      let body ← compileChunk src body
      let clauses ← sequel.compile src span
      return .attempt body clauses.handler clauses.otherwise clauses.finally_

/-! ## What is a phrase -/

section Accepted

/-- A lambda without parameters is the block of its body. -/
theorem compileInline_body (what : String) (body : Chunk) :
    compileInline src span what (.lambda [] body) = compileChunk src body := by
  unfold compileInline
  rfl

/-- The part for nothing else, as it is spelled, resolves to its body. -/
theorem compileElse_words (form : String) (otherwise : Option Chunk) :
    compileElse src span form (clauseWords "else" otherwise) = otherwise.mapM (compileChunk src) := by
  cases otherwise with
  | none =>
    unfold clauseWords compileElse
    rfl
  | some body =>
    unfold clauseWords compileElse
    rw [compileInline_body]
    rfl

/-- Conditions are read off from the first on, by induction on how many there are. -/
theorem compileBranches_words (first : Arm) (more : List Arm) (otherwise : Option Chunk) :
    compileBranches src span (branchWords first more otherwise) = (do
      let first ← first.compile src span
      let more ← more.mapM (Arm.compile src span)
      let otherwise ← otherwise.mapM (compileChunk src)
      return (first :: more, otherwise)) := by
  induction more generalizing first with
  | nil =>
    cases otherwise with
    | none =>
      simp only [branchWords, Arm.words, clauseWords, List.flatMap_nil, List.append_nil]
      unfold compileBranches
      simp [Arm.compile, compileInline_body]
    | some body =>
      simp only [branchWords, Arm.words, clauseWords, List.flatMap_nil, List.nil_append, List.cons_append]
      unfold compileBranches
      simp [Arm.compile, compileInline_body, Word.isKeyword]
  | cons next more ih =>
    have hrest : branchWords first (next :: more) otherwise =
        first.word :: .lambda [] first.body :: .bare "elif" :: branchWords next more otherwise := by
          simp [branchWords, Arm.words]
    rw [hrest]
    unfold compileBranches
    simp [ih, Arm.compile, compileInline_body, Word.isKeyword]

/-- Of the clauses only the last part is left: it resolves to its body. -/
theorem compileClauses_finally {stage : Nat} (h : stage < 3) (finally_ : Option Chunk) :
    compileClauses src span stage (clauseWords "finally" finally_) = (do
      let finally_ ← finally_.mapM (compileChunk src)
      return ⟨none, none, finally_⟩) := by
  cases finally_ with
  | none =>
    unfold clauseWords compileClauses
    rfl
  | some body =>
    unfold clauseWords compileClauses
    unfold compileClauses
    simp [compileInline_body, Word.isKeyword, Word.isHandlerKeyword, h]

/-- Only the third part and the last one are left: each resolves to its body. -/
theorem compileClauses_else {stage : Nat} (h : stage < 2) (otherwise finally_ : Option Chunk) :
    compileClauses src span stage (clauseWords "else" otherwise ++ clauseWords "finally" finally_) = (do
      let otherwise ← otherwise.mapM (compileChunk src)
      let finally_ ← finally_.mapM (compileChunk src)
      return ⟨none, otherwise, finally_⟩) := by
  cases otherwise with
  | none => simpa [clauseWords] using compileClauses_finally src span (by omega) finally_
  | some body =>
    have hfinally := compileClauses_finally src span (show 2 < 3 by decide) finally_
    rw [clauseWords, List.cons_append, List.cons_append, List.nil_append]
    unfold compileClauses
    simp [compileInline_body, Word.isKeyword, Word.isHandlerKeyword, h, hfinally]

/-- The clauses that follow a protected body resolve to their parts, whichever of them there are. -/
theorem compileClauses_words (sequel : Sequel) : compileClauses src span 0 sequel.words = sequel.compile src span := by
  obtain ⟨handler, otherwise, finally_⟩ := sequel
  cases handler with
  | none => simpa [Sequel.words, Sequel.compile] using compileClauses_else src span (by omega) otherwise finally_
  | some handler =>
    obtain ⟨keyword, starts, name, body⟩ := handler
    have hkeyword : (Word.bare keyword).isHandlerKeyword = true := by rcases starts with rfl | rfl <;> rfl
    have helse := compileClauses_else src span (show 1 < 2 by decide) otherwise finally_
    cases name with
    | none =>
      have hwords : Sequel.words ⟨some ⟨keyword, starts, none, body⟩, otherwise, finally_⟩ =
          .bare keyword :: .lambda [] body :: (clauseWords "else" otherwise ++ clauseWords "finally" finally_) := rfl
      rw [hwords]
      unfold compileClauses
      simp [hkeyword, helse, compileInline_body, Sequel.compile, Handler.compile]
    | some name =>
      have hwords : Sequel.words ⟨some ⟨keyword, starts, some name, body⟩, otherwise, finally_⟩ =
          .bare keyword :: .bare name :: .lambda [] body :: (clauseWords "else" otherwise ++
            clauseWords "finally" finally_) := rfl
      rw [hwords]
      unfold compileClauses
      simp [hkeyword, helse, compileInline_body, Sequel.compile, Handler.compile]

end Accepted

/-! ## What is no phrase -/

/-- How words after the name of a special form are refused: at the form, as a bad special form, or in a part among them. -/
inductive Refusal (src : String) (span : Span) (ws : List Word) : Misplaced → Scope → Prop
  | form {f : CompileFault} (kind : f.kind = .badSpecialForm) (t : Scope) : Refusal src span ws ⟨f, span⟩ t
  | word {w : Word} {s t : Scope} {e : Misplaced} (mem : w ∈ ws) (h : (compileWord src span w).run.run s = (.error e, t)) :
    Refusal src span ws e t
  | body {body : Chunk} {s t : Scope} {e : Misplaced} (mem : .lambda [] body ∈ ws)
    (h : (compileChunk src body).run.run s = (.error e, t)) : Refusal src span ws e t
  | target {name : String} {s t : Scope} {e : Misplaced} (mem : .bare name ∈ ws)
    (h : (resolveTarget span name).run.run s = (.error e, t)) : Refusal src span ws e t

end Source

namespace Compile

open Source

variable {α β : Type} {src : String} {span : Span} {ws : List Word} {P Q : Prop}

/-- The resolution of a part of a special form: it succeeds only if the words are right, and refuses them otherwise. -/
structure Parses (src : String) (span : Span) (ws : List Word) (P : Prop) (x : Compile α) : Prop where
  ok : ∀ {s t a}, x.run.run s = (.ok a, t) → P
  error : ∀ {s t e}, x.run.run s = (.error e, t) → Refusal src span ws e t

namespace Parses

/-- What yields a value without looking parses what is known of the words. -/
theorem pure {a : α} (h : P) : (Pure.pure a : Compile α).Parses src span ws P where
  ok _ := h
  error h := nomatch h

/-- To refuse a special form says that the words are no phrase. -/
theorem fault {f : CompileFault} (h : f.kind = .badSpecialForm) :
    (Compile.fault span f : Compile α).Parses src span ws P where
  ok h := nomatch h
  error hr := by
    cases hr
    exact .form h _

/-- One part after another: the second may use what the first parsed. -/
theorem bind {x : Compile α} {f : α → Compile β} (hx : x.Parses src span ws Q) (hf : Q → ∀ a, (f a).Parses src span ws P) :
    (x >>= f).Parses src span ws P where
  ok h := by
    obtain ⟨a, t, hx', hf'⟩ := run_bind_ok h
    exact (hf (hx.ok hx') a).ok hf'
  error {s u e} h := by
    rw [ExceptT.run_bind, StateT.run_bind] at h
    rcases hrun : x.run.run s with ⟨r, t⟩
    rw [hrun] at h
    cases r with
    | ok a => exact (hf (hx.ok hrun) a).error h
    | error e' =>
      cases h
      exact hx.error hrun

/-- What comes last of all makes the result of what comes before it. -/
theorem map {x : Compile α} {f : α → β} (hx : x.Parses src span ws Q) (h : Q → P) :
    (x >>= fun a => Pure.pure (f a)).Parses src span ws P := .bind hx fun hq _ => .pure (h hq)

/-- Less may be concluded of the words. -/
theorem mono {x : Compile α} (hx : x.Parses src span ws Q) (h : Q → P) : x.Parses src span ws P :=
  ⟨fun hr => h (hx.ok hr), hx.error⟩

/-- A word of the form is to resolve by itself. -/
theorem word {w : Word} (mem : w ∈ ws) : (compileWord src span w).Parses src span ws True := ⟨fun _ => trivial, .word mem⟩

/-- A bare word of the form may be looked up as a target by itself. -/
theorem target {name : String} (mem : .bare name ∈ ws) : (resolveTarget span name).Parses src span ws True :=
  ⟨fun _ => trivial, .target mem⟩

/-- A word that is to be a body is a lambda without parameters. -/
theorem inline {w : Word} (mem : w ∈ ws) (what : String) :
    (compileInline src span what w).Parses src span ws (∃ body, w = .lambda [] body) := by
  unfold compileInline
  split
  · exact ⟨fun _ => ⟨_, rfl⟩, .body mem⟩
  · exact .fault rfl

end Parses

end Compile

namespace Source

variable {src : String} {span : Span} {ws : List Word}

/-- A keyword is a bare word. -/
theorem Word.eq_bare {w : Word} {keyword : String} (h : w.isKeyword keyword = true) : w = .bare keyword := by
  unfold Word.isKeyword at h
  split at h
  · rw [beq_iff_eq.1 h]
  · cases h

/-- A word that starts a handler is `except` or `catch`, written bare. -/
theorem Word.eq_handler {w : Word} (h : w.isHandlerKeyword = true) :
    ∃ keyword, (keyword = "except" ∨ keyword = "catch") ∧ w = .bare keyword := by
  rcases Bool.or_eq_true _ _ ▸ h with h | h
  · exact ⟨_, .inl rfl, Word.eq_bare h⟩
  · exact ⟨_, .inr rfl, Word.eq_bare h⟩

/-- By induction along the conditions: what follows `elif` is read as the words of an `if` of its own. -/
theorem branches_parses : (vs : List Word) → vs ⊆ ws →
    (compileBranches src span vs).Parses src span ws (∃ first more otherwise, branchWords first more otherwise = vs)
  | [], _ => .fault rfl
  | [condition], h => by
    unfold compileBranches
    exact .bind (.word (h (by simp))) fun _ _ => .fault rfl
  | [condition, body], h => by
    unfold compileBranches
    refine .bind (.word (h (by simp))) fun _ _ => .map (.inline (h (by simp)) _) ?_
    rintro ⟨body, rfl⟩
    exact ⟨⟨condition, body⟩, [], none, rfl⟩
  | condition :: body :: next :: rest, h => by
    unfold compileBranches
    refine .bind (.word (h (by simp))) fun _ _ => .bind (.inline (h (by simp)) _) ?_
    rintro ⟨body, rfl⟩ _
    split
    · rename_i hnext
      refine .map (branches_parses rest fun w hw => h (by simp [hw])) ?_
      rintro ⟨first, more, otherwise, rfl⟩
      exact ⟨⟨condition, body⟩, first :: more, otherwise, by simp [branchWords, Arm.words, Word.eq_bare hnext]⟩
    · split
      · rename_i hnext
        split
        · exact .fault rfl
        · refine .bind (.inline (h (by simp)) _) ?_
          rintro ⟨otherwise, rfl⟩ _
          split
          · rename_i hrest
            rw [List.isEmpty_iff.1 hrest, Word.eq_bare hnext]
            exact .pure ⟨⟨condition, body⟩, [], some otherwise, rfl⟩
          · exact .fault rfl
      · exact .fault rfl

/-- What is left of the words after the bodies is a part for nothing else, or nothing. -/
theorem otherwise_parses {vs : List Word} (h : vs ⊆ ws) (form : String) :
    (compileElse src span form vs).Parses src span ws (∃ otherwise, clauseWords "else" otherwise = vs) := by
  unfold compileElse
  split
  · exact .pure ⟨none, rfl⟩
  · split
    · rename_i hkeyword
      refine .map (.inline (h (by simp)) _) ?_
      rintro ⟨body, rfl⟩
      exact ⟨some body, by rw [Word.eq_bare hkeyword]; rfl⟩
    · exact .fault rfl
  · exact .fault rfl

/-- A `while` form that resolves is a phrase. -/
theorem while_parses : (compileWhile src span ws).Parses src span ws (∃ (arm : Arm) (otherwise : Option Chunk),
    arm.words ++ clauseWords "else" otherwise = ws) := by
  unfold compileWhile
  split
  · exact .fault rfl
  · exact .bind (.word (by simp)) fun _ _ => .fault rfl
  · rename_i condition body rest
    refine .bind (.word (by simp)) fun _ _ => .bind (.inline (by simp) _) ?_
    rintro ⟨body, rfl⟩ _
    refine .map (otherwise_parses (fun w hw => by simp [hw]) _) ?_
    rintro ⟨otherwise, rfl⟩
    exact ⟨⟨condition, body⟩, otherwise, rfl⟩

/-- A `for` form that resolves is a phrase. -/
theorem for_parses : (compileFor src span ws).Parses src span ws (∃ (name : String) (arm : Arm) (otherwise : Option Chunk),
    .bare name :: (arm.words ++ clauseWords "else" otherwise) = ws) := by
  unfold compileFor
  split
  · exact .fault rfl
  · exact .bind (.word (by simp)) fun _ _ => .bind (.target (by simp)) fun _ _ => .fault rfl
  · rename_i name container body rest
    refine .bind (.word (by simp)) fun _ _ => .bind (.target (by simp)) fun _ _ => .bind (.inline (by simp) _) ?_
    rintro ⟨body, rfl⟩ _
    refine .map (otherwise_parses (fun w hw => by simp [hw]) _) ?_
    rintro ⟨otherwise, rfl⟩
    exact ⟨name, ⟨container, body⟩, otherwise, rfl⟩
  · exact .fault rfl

/-- The clauses that may still come at a stage. -/
def Sequel.From (stage : Nat) (s : Sequel) : Prop :=
  (1 ≤ stage → s.handler = none) ∧ (2 ≤ stage → s.otherwise = none) ∧ (3 ≤ stage → s.finally_ = none)

/-- A body has something after it if there are words for it. -/
theorem Sequel.some_iff (s : Sequel) : s.Some ↔ s.words ≠ [] := by
  obtain ⟨handler, otherwise, finally_⟩ := s
  cases handler <;> cases otherwise <;> cases finally_ <;> simp [Sequel.Some, Sequel.words, clauseWords, Handler.words]

/-- A clause raises the stage past its own, so that the clauses after it leave its place free. -/
theorem clauses_parses (stage : Nat) : (vs : List Word) → vs ⊆ ws →
    (compileClauses src span stage vs).Parses src span ws (∃ s : Sequel, s.From stage ∧ s.words = vs)
  | [], _ => by
    unfold compileClauses
    exact .pure ⟨⟨none, none, none⟩, ⟨fun _ => rfl, fun _ => rfl, fun _ => rfl⟩, rfl⟩
  | [keyword], _ => by
    unfold compileClauses
    split
    · exact .fault rfl
    · split
      · exact .fault rfl
      · split <;> exact .fault rfl
  | keyword :: next :: rest, h => by
    unfold compileClauses
    split
    · rename_i hkeyword
      simp only [Bool.and_eq_true, decide_eq_true_eq] at hkeyword
      obtain ⟨keyword, starts, rfl⟩ := Word.eq_handler hkeyword.1
      have hstage : stage = 0 := by omega
      subst hstage
      have hfrom : ∀ s : Sequel, s.From 0 := fun s => ⟨fun h => by omega, fun h => by omega, fun h => by omega⟩
      -- A bare word after the keyword is the variable, whatever it spells.
      split
      · exact .bind (.target (h (by simp))) fun _ _ => .fault rfl
      · rename_i name body rest
        refine .bind (.target (h (by simp))) fun _ _ => .bind (.inline (h (by simp)) _) ?_
        rintro ⟨body, rfl⟩ _
        refine .map (clauses_parses 1 rest fun w hw => h (by simp [hw])) ?_
        rintro ⟨⟨_, otherwise, finally_⟩, ⟨hnone, -⟩, rfl⟩
        cases hnone (Nat.le_refl _)
        exact ⟨⟨some ⟨keyword, starts, some name, body⟩, otherwise, finally_⟩, hfrom _, rfl⟩
      · refine .bind (.inline (h (by simp)) _) ?_
        rintro ⟨body, rfl⟩ _
        refine .map (clauses_parses 1 rest fun w hw => h (by simp [hw])) ?_
        rintro ⟨⟨_, otherwise, finally_⟩, ⟨hnone, -⟩, rfl⟩
        cases hnone (Nat.le_refl _)
        exact ⟨⟨some ⟨keyword, starts, none, body⟩, otherwise, finally_⟩, hfrom _, rfl⟩
    · split
      · rename_i hkeyword
        simp only [Bool.and_eq_true, decide_eq_true_eq] at hkeyword
        rw [Word.eq_bare hkeyword.1]
        refine .bind (.inline (h (by simp)) _) ?_
        rintro ⟨body, rfl⟩ _
        refine .map (clauses_parses 2 rest fun w hw => h (by simp [hw])) ?_
        rintro ⟨⟨_, _, finally_⟩, ⟨hhandler, hotherwise, -⟩, rfl⟩
        cases hhandler (by omega)
        cases hotherwise (Nat.le_refl _)
        exact ⟨⟨none, some body, finally_⟩, ⟨fun _ => rfl, fun h => by omega, fun h => by omega⟩, rfl⟩
      · split
        · rename_i hkeyword
          simp only [Bool.and_eq_true, decide_eq_true_eq] at hkeyword
          rw [Word.eq_bare hkeyword.1]
          refine .bind (.inline (h (by simp)) _) ?_
          rintro ⟨body, rfl⟩ _
          refine .map (clauses_parses 3 rest fun w hw => h (by simp [hw])) ?_
          rintro ⟨⟨_, _, _⟩, ⟨hhandler, hotherwise, hfinally⟩, rfl⟩
          cases hhandler (by omega)
          cases hotherwise (by omega)
          cases hfinally (Nat.le_refl _)
          exact ⟨⟨none, none, some body⟩, ⟨fun _ => rfl, fun _ => rfl, fun h => by omega⟩, rfl⟩
        · exact .fault rfl

/-- A `try` form that resolves is a phrase, and something follows its body. -/
theorem try_parses : (compileTry src span ws).Parses src span ws (∃ (body : Chunk) (s : Sequel), s.Some ∧
    .lambda [] body :: s.words = ws) := by
  unfold compileTry
  split
  · exact .fault rfl
  · rename_i body rest
    refine .bind (.inline (by simp) _) ?_
    rintro ⟨body, rfl⟩ _
    refine .bind (clauses_parses 0 rest fun w hw => by simp [hw]) ?_
    rintro ⟨s, -, rfl⟩ _
    split
    · exact .fault rfl
    · rename_i hwords
      exact .pure ⟨body, s, s.some_iff.2 (by simpa using hwords), rfl⟩

end Source

/-! ## Special forms -/

/-- The resolution of the words after the name of a special form. -/
def SpecialForm.resolve (src : String) (span : Span) (ws : List Source.Word) : SpecialForm → Compile Code.Special
  | .branch => do
    let (branches, otherwise) ← compileBranches src span ws
    return .branch branches otherwise
  | .whileLoop => compileWhile src span ws
  | .forLoop => compileFor src span ws
  | .attempt => compileTry src span ws
  | .define => compileFn src span ws
  | .conjunction => do return .conjunction (← compileWords src span ws)
  | .disjunction => do return .disjunction (← compileWords src span ws)
  | .delete => do return .delete (← compileDeletions src span ws)
  | .load => compileUse span ws

/-- A command whose head is the name of a special form resolves as that form. -/
theorem compileCommand_special (src : String) (span : Span) (form : SpecialForm) (ws : List Source.Word) :
    compileCommand src span ⟨.bare form.name, ws, []⟩ = (form.resolve src span ws >>= fun op => pure (.special op)) := by
  have hform : SpecialForm.ofName? form.name = some form := by cases form <;> rfl
  unfold compileCommand
  rw [hform]
  cases form <;> simp [SpecialForm.resolve]

/-- A special form takes no options. -/
theorem opts_of_special {src : String} {span : Span} {form : SpecialForm} {ws : List Source.Word} {opts : List Source.Opt}
    {action : Code.Action} {s t : Scope}
    (h : (compileCommand src span ⟨.bare form.name, ws, opts⟩).run.run s = (.ok action, t)) :
    opts = [] := by
  have hform : SpecialForm.ofName? form.name = some form := by cases form <;> rfl
  unfold compileCommand at h
  rw [hform] at h
  dsimp only at h
  split at h
  · cases h
  · rename_i hopts
    simpa using hopts

/-- A command that is a special form resolves to it. -/
theorem compileCommand_ok {src : String} {span : Span} (form : SpecialForm) {ws : List Source.Word} {opts : List Source.Opt}
    {action : Code.Action} {s t : Scope}
    (h : (compileCommand src span ⟨.bare form.name, ws, opts⟩).run.run s = (.ok action, t)) :
    ∃ op, action = .special op ∧ (form.resolve src span ws).run.run s = (.ok op, t) := by
  cases opts_of_special h
  rw [compileCommand_special] at h
  obtain ⟨op, t', hop, hlast⟩ := run_bind_ok h
  cases hlast
  exact ⟨op, rfl, hop⟩

open Source in
/-- A phrase resolves to what it stands for. -/
theorem SpecialForm.resolve_phrase {src : String} {span : Span} {form : SpecialForm} {ws : List Word}
    {x : Compile Code.Special} (h : Phrase src span form ws x) : form.resolve src span ws = x := by
  cases h with
  | branch first more otherwise => simp [SpecialForm.resolve, compileBranches_words]
  | whileLoop arm otherwise =>
    unfold SpecialForm.resolve
    simp only [Arm.words, List.cons_append, List.nil_append]
    unfold compileWhile
    simp [compileInline_body, compileElse_words, Arm.compile]
  | forLoop name arm otherwise =>
    unfold SpecialForm.resolve
    simp only [Arm.words, List.cons_append, List.nil_append]
    unfold compileFor
    simp [compileInline_body, compileElse_words]
  | attempt body sequel hsome =>
    have hwords := sequel.some_iff.1 hsome
    unfold SpecialForm.resolve
    dsimp only
    unfold compileTry
    simp [compileInline_body, compileClauses_words, hwords]

open Source in
/-- A special form resolves only if its words are a phrase. -/
theorem SpecialForm.resolve_parses {src : String} {span : Span} {form : SpecialForm} {ws : List Word}
    (hform : form ∈ [SpecialForm.branch, .whileLoop, .forLoop, .attempt]) :
    (form.resolve src span ws).Parses src span ws (∃ x, Phrase src span form ws x) := by
  simp only [List.mem_cons, List.not_mem_nil, or_false] at hform
  rcases hform with rfl | rfl | rfl | rfl
  · refine .map (branches_parses ws (List.Subset.refl ws)) ?_
    rintro ⟨first, more, otherwise, rfl⟩
    exact ⟨_, .branch first more otherwise⟩
  · refine while_parses.mono ?_
    rintro ⟨arm, otherwise, rfl⟩
    exact ⟨_, .whileLoop arm otherwise⟩
  · refine for_parses.mono ?_
    rintro ⟨name, arm, otherwise, rfl⟩
    exact ⟨_, .forLoop name arm otherwise⟩
  · refine try_parses.mono ?_
    rintro ⟨body, sequel, hsome, rfl⟩
    exact ⟨_, .attempt body sequel hsome⟩

/-- The special forms with a grammar accept it and nothing else. Words that are a phrase of the form resolve to the form
of their parts, each resolved after the other. Words that are not are never resolved: whatever the scope, they are a bad
special form, or one of them is a part that does not resolve. -/
theorem Compile.phrases_resolve {form : SpecialForm} (hform : form ∈ [SpecialForm.branch, .whileLoop, .forLoop, .attempt])
    (src : String) (span : Span) (ws : List Source.Word) :
    (∀ x, Source.Phrase src span form ws x →
      compileCommand src span ⟨.bare form.name, ws, []⟩ = (x >>= fun op => pure (.special op))) ∧
    ((∀ x, ¬Source.Phrase src span form ws x) → ∀ s, ∃ e t,
      (compileCommand src span ⟨.bare form.name, ws, []⟩).run.run s = (.error e, t) ∧ Source.Refusal src span ws e t) := by
  rw [compileCommand_special]
  refine ⟨fun x hx => by rw [SpecialForm.resolve_phrase hx], fun hnone s => ?_⟩
  have hparses : (form.resolve src span ws >>= fun op => (pure (.special op) : Compile Code.Action)).Parses src span ws
      (∃ x, Source.Phrase src span form ws x) := .map (SpecialForm.resolve_parses hform) id
  rcases hrun : (form.resolve src span ws >>= fun op => (pure (.special op) : Compile Code.Action)).run.run s with ⟨r, t⟩
  cases r with
  | ok action =>
    obtain ⟨x, hx⟩ := hparses.ok hrun
    exact absurd hx (hnone x)
  | error e => exact ⟨e, t, rfl, hparses.error hrun⟩

/-- In `try { } except else { }` the second keyword is the variable of the handler; `try { } finally { } else { }` is
refused. -/
theorem Compile.phrases_resolve_try :
    let body : Source.Word := .lambda [] ⟨[]⟩
    let late := [body, .bare "finally", body, .bare "else", body]
    (compileCommand "" ⟨0, 0⟩ ⟨.bare "try", [body, .bare "except", .bare "else", body], []⟩).run.run (.ofGlobals []) =
        (.ok (.special (.attempt ⟨[]⟩ (some ⟨some (.local "else"), ⟨[]⟩⟩) none none)), .ofGlobals ["else"]) ∧
      ∃ e t, (compileCommand "" ⟨0, 0⟩ ⟨.bare "try", late, []⟩).run.run (.ofGlobals []) = (.error e, t) ∧
        Source.Refusal "" ⟨0, 0⟩ late e t := by
  intro body late
  have hform : SpecialForm.attempt ∈ [SpecialForm.branch, .whileLoop, .forLoop, .attempt] := by decide
  have hphrase : Source.Phrase "" ⟨0, 0⟩ .attempt [body, .bare "except", .bare "else", body] _ :=
    .attempt ⟨[]⟩ ⟨some ⟨"except", .inl rfl, some "else", ⟨[]⟩⟩, none, none⟩ (.inl rfl)
  have hnone : ∀ x, ¬Source.Phrase "" ⟨0, 0⟩ .attempt late x := by
    intro x hx
    generalize hwords : late = ws at hx
    cases hx with
    | attempt b sequel hsome =>
      obtain ⟨handler, otherwise, finally_⟩ := sequel
      rcases handler with _ | ⟨keyword, rfl | rfl, _ | name, b⟩ <;> cases otherwise <;> cases finally_ <;>
        simp [Source.Sequel.words, Source.clauseWords, Source.Handler.words, late, body] at hwords
  refine ⟨?_, (phrases_resolve hform "" ⟨0, 0⟩ late).2 hnone (.ofGlobals [])⟩
  refine (congrArg (fun x => x.run.run (.ofGlobals [])) ((phrases_resolve hform "" ⟨0, 0⟩ _).1 _ hphrase)).trans ?_
  cbv

end DualShell
