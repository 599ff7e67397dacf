import DualShell.Compile.Program
import DualShell.Proofs.Scope.Static

/-!
# Resolved programs reach only for what is there

Resolution walks a program once and threads a scope through it. `Compile.Notes` follows along: beside its result, a
resolution leaves a list of what happened, and the scope moves as that list accounts for. For `Compile.Writes` it is the
list of what the result mentions, which leads from one scope to the next (`Scope.Leads`). The main statement is that
this list is exactly what the resolved program mentions (`compileChunk_writes`), so that whatever a program mentions is
within reach of the scope it was resolved in, and every lambda in it fits (`Source.Chunk.compile_leads`).
-/

namespace DualShell

/-- A way to account for how resolution moves a scope, by a list of what happens on the way. -/
structure Compile.Account (ι : Type) where
  /-- The scopes that are accounted for. -/
  Ready : Scope → Prop
  Moves : List ι → Scope → Scope → Prop
  nil : ∀ {s}, Ready s → Moves [] s s
  append : ∀ {ms ns s t u}, Moves ms s t → Moves ns t u → Moves (ms ++ ns) s u
  ready : ∀ {ms s t}, Moves ms s t → Ready t

/-- A resolution that succeeds moves the scope by a list that its result is related to. -/
def Compile.Notes {ι α : Type} (A : Compile.Account ι) (R : α → List ι → Prop) (x : Compile α) : Prop :=
  ∀ s a t, A.Ready s → x.run.run s = (.ok a, t) → ∃ ms, R a ms ∧ A.Moves ms s t

namespace Compile

variable {α β : Type}

/-- After a part that resolved, resolution goes on in the scope it left. -/
theorem run_bind {x : Compile α} {f : α → Compile β} {s t : Scope} {a : α} (h : x.run.run s = (.ok a, t)) :
    (x >>= f).run.run s = (f a).run.run t := by
  rw [ExceptT.run_bind, StateT.run_bind, h]
  rfl

/-- A sequence succeeds if its parts do, one after the other. -/
theorem run_bind_ok {x : Compile α} {f : α → Compile β} {s u : Scope} {b : β} (h : (x >>= f).run.run s = (.ok b, u)) :
    ∃ a t, x.run.run s = (.ok a, t) ∧ (f a).run.run t = (.ok b, u) := by
  rw [ExceptT.run_bind, StateT.run_bind] at h
  cases hx : x.run.run s with
  | mk r t =>
    rw [hx] at h
    cases r with
    | ok a => exact ⟨a, t, rfl, h⟩
    | error e => nomatch h

namespace Notes

variable {ι : Type} {A : Account ι}

/-- What yields a value without looking notes nothing. -/
theorem pure {R : α → List ι → Prop} {a : α} (h : R a []) : (Pure.pure a : Compile α).Notes A R := by
  intro s a' t hs hr
  cases hr
  exact ⟨[], h, A.nil hs⟩

/-- A fault notes whatever it is said to. -/
theorem fault {R : α → List ι → Prop} {span : Span} {f : CompileFault} : (Compile.fault span f : Compile α).Notes A R := by
  intro s a t hs hr
  nomatch hr

/-- Resolution notes part after part. -/
theorem bind {P : α → List ι → Prop} {R : β → List ι → Prop} {x : Compile α} {f : α → Compile β} (hx : x.Notes A P)
    (hf : ∀ a ms, P a ms → (f a).Notes A fun b ns => R b (ms ++ ns)) : (x >>= f).Notes A R := by
  intro s b u hs hr
  obtain ⟨a, t, hx', hf'⟩ := run_bind_ok hr
  obtain ⟨ms, hP, hmoves⟩ := hx s a t hs hx'
  obtain ⟨ns, hR, hmoves'⟩ := hf a ms hP t b u (A.ready hmoves) hf'
  exact ⟨ms ++ ns, hR, A.append hmoves hmoves'⟩

/-- What comes last of all makes the result of what comes before it. -/
theorem map {P : α → List ι → Prop} {R : β → List ι → Prop} {x : Compile α} {f : α → β} (hx : x.Notes A P)
    (hf : ∀ a ms, P a ms → R (f a) ms) : (x >>= fun a => Pure.pure (f a)).Notes A R :=
  .bind hx fun a ms ha => .pure (by simpa using hf a ms ha)

/-- What happened can be told in another way. -/
theorem retell {P R : α → List ι → Prop} {x : Compile α} (hx : x.Notes A P)
    (h : ∀ a ms s t, P a ms → A.Moves ms s t → ∃ ns, R a ns ∧ A.Moves ns s t) : x.Notes A R := by
  intro s a t hs hr
  obtain ⟨ms, hP, hmoves⟩ := hx s a t hs hr
  exact h a ms s t hP hmoves

/-- What leaves the scope alone is not told. -/
theorem skip {R : β → List ι → Prop} {x : Compile α} {f : α → Compile β} (hx : x.Notes A fun _ ms => [] = ms)
    (hf : ∀ a, (f a).Notes A R) : (x >>= f).Notes A R :=
  .bind hx fun a _ h => h ▸ hf a

/-- A check that leaves the scope alone. -/
theorem check {R : Unit → List ι → Prop} {c : Prop} [Decidable c] {span : Span} {f : CompileFault} (h : R () []) :
    (if c then Pure.pure () else Compile.fault span f : Compile Unit).Notes A R := by
  split
  · exact pure h
  · exact fault

end Notes

/-- An account of mentions that covers all that is done to a scope where names are understood. -/
structure Account.ByMention (A : Account Mention) : Prop where
  /-- What counts as mentioned can be chosen smaller, and what counts as deleted larger. -/
  sub : ∀ {ms ns s t}, A.Moves ms s t → (∀ m ∈ ns, m ∈ ms ∨ ∃ name, m = .drop name) →
    (∀ name, .drop name ∈ ms → .drop name ∈ ns) → A.Moves ns s t
  fixed : ∀ {s name}, A.Ready s → isFixedVariable name = true → A.Moves [.fixed name] s s
  change : ∀ {s ref}, A.Ready s → ref.isWritable = true → A.Moves [.change ref] s s
  isLocal : ∀ {s name}, A.Ready s → s.isLocal name = true → A.Moves [.local name] s s
  declare : ∀ {s}, A.Ready s → ∀ name, A.Moves [.local name] s (s.declare name)
  undeclare : ∀ {s}, A.Ready s → ∀ name, A.Moves [.drop name] s (s.undeclare name)
  resolve : ∀ {s t name ref}, A.Ready s → s.resolve name = (some ref, t) → A.Moves ref.mentions s t
  resolveUp : ∀ {s t name ref}, A.Ready s → s.resolveUp name = (some ref, t) → A.Moves ref.mentions s t
  /-- The scope of the body of a lambda. -/
  inside : ∀ {s}, A.Ready s → ∀ names : List String, A.Ready (names.foldl Scope.declare s.push)
  close : ∀ {s t : Scope} {names : List String} {op : Code.Lambda},
    A.Moves op.body.mentions (names.foldl Scope.declare s.push) t →
    op.captures = t.pop.1 → A.Moves op.mentions s t.pop.2

/-- The account by what the result mentions. -/
def mentioned : Account Mention := ⟨Scope.Linked, Scope.Leads, .nil, .append, fun h => h.linked⟩

/-- The rule that goes by mentions is one. -/
theorem mentioned_byMention : mentioned.ByMention where
  sub := Scope.Leads.sub
  fixed h hname := Scope.Linked.fixed h hname
  change h hw := Scope.Linked.change h hw
  isLocal h hlocal := Scope.Linked.isLocal h hlocal
  declare := Scope.Linked.declare
  undeclare := Scope.Linked.undeclare
  resolve h hr := Scope.Linked.resolve h hr
  resolveUp h hr := Scope.Linked.resolveUp h hr
  inside h := Scope.Linked.declareAll (Scope.Linked.push h)
  close := Scope.Leads.close

/-- A resolution that succeeds moves the scope by mentions that its result is related to. -/
abbrev Writes (A : Account Mention) (R : α → List Mention → Prop) (x : Compile α) : Prop := x.Notes A R

variable {M : Account Mention} (hM : M.ByMention)
include hM

namespace Writes

/-- What counts as mentioned can be chosen smaller, and what counts as deleted larger. -/
theorem sub {P R : α → List Mention → Prop} {x : Compile α} (hx : x.Writes M P)
    (h : ∀ a ms, P a ms → ∃ ns, R a ns ∧ (∀ m ∈ ns, m ∈ ms ∨ ∃ name, m = .drop name) ∧ ∀ name, .drop name ∈ ms →
      .drop name ∈ ns) :
    x.Writes M R := by
  refine .retell hx fun a ms s t hP hmoves => ?_
  obtain ⟨ns, hR, hm, hd⟩ := h a ms hP
  exact ⟨ns, hR, hM.sub hmoves hm hd⟩

/-- A fixed variable is always there. -/
theorem fixed {R : α → List Mention → Prop} {a : α} {name : String} (hname : isFixedVariable name = true)
    (h : R a [.fixed name]) : (Pure.pure a : Compile α).Writes M R := by
  intro s a' t hs hr
  cases hr
  exact ⟨[.fixed name], h, hM.fixed hs hname⟩

/-- What was found out about a variable tells that it can be changed. -/
theorem change {R : α → List Mention → Prop} {a : α} {ref : Ref} (hw : ref.isWritable = true) (h : R a [.change ref]) :
    (Pure.pure a : Compile α).Writes M R := by
  intro s a' t hs hr
  cases hr
  exact ⟨[.change ref], h, hM.change hs hw⟩

end Writes

/-! ## Names -/

/-- What a lookup that may fail mentions. -/
def found : Option Ref → List Mention
  | none => []
  | some ref => ref.mentions

/-- What is found can be changed. -/
theorem resolve_writes (name : String) : (Compile.resolve name).Writes M fun r ms =>
    found r = ms ∧ ∀ ref, r = some ref → ref.isWritable = true := by
  intro s r t hs hr
  change ((.ok (s.resolve name).1, (s.resolve name).2) : Except Misplaced (Option Ref) × Scope) = _ at hr
  simp only [Prod.mk.injEq, Except.ok.injEq] at hr
  have hresolve : s.resolve name = (r, t) := Prod.ext hr.1 hr.2
  refine ⟨found r, ⟨rfl, fun ref href => Scope.Linked.resolve_isWritable (href ▸ hresolve)⟩, ?_⟩
  cases r with
  | none =>
    rw [Scope.Linked.resolve_none hresolve]
    exact M.nil hs
  | some ref => exact hM.resolve hs hresolve

/-- A look-up from outside the innermost frame mentions what it finds. -/
theorem resolveUp_writes (name : String) : (Compile.resolveUp name).Writes M fun r ms => found r = ms := by
  intro s r t hs hr
  change ((.ok (s.resolveUp name).1, (s.resolveUp name).2) : Except Misplaced (Option Ref) × Scope) = _ at hr
  simp only [Prod.mk.injEq, Except.ok.injEq] at hr
  have hresolve : s.resolveUp name = (r, t) := Prod.ext hr.1 hr.2
  refine ⟨found r, rfl, ?_⟩
  cases r with
  | none =>
    rw [Scope.Linked.resolveUp_none hresolve]
    exact M.nil hs
  | some ref => exact hM.resolveUp hs hresolve

/-- A name is bound to be given a value. -/
theorem declare_writes (name : String) : (Compile.declare name).Writes M fun _ ms =>
    (Ref.local name).changeMentions = ms := by
  intro s r t hs hr
  cases hr
  exact ⟨_, rfl, M.append (hM.declare hs name) (hM.change (M.ready (hM.declare hs name)) rfl)⟩

/-- A name that is bound is mentioned by saying so. -/
theorem isLocal_writes (name : String) : (Compile.isLocal name).Writes M fun b ms => b = true → [.local name] = ms := by
  intro s r t hs hr
  cases hr
  by_cases h : s.isLocal name = true
  · exact ⟨[.local name], fun _ => rfl, hM.isLocal hs h⟩
  · exact ⟨[], fun hb => absurd hb h, M.nil hs⟩

/-- A deletion mentions the name as dropped and as changed. -/
theorem undeclare_writes (name : String) :
    (Compile.undeclare name).Writes M fun _ ms => [.drop name, .change (.local name)] = ms := by
  intro s r t hs hr
  cases hr
  exact ⟨_, rfl, M.append (hM.undeclare hs name) (hM.change (M.ready (hM.undeclare hs name)) rfl)⟩

end Compile

open Compile

/-! ## Checks -/

section Checks

variable (span : Span) {ι : Type} {A : Account ι}

/-- A reference that passes the check can be written. -/
theorem checkWritable_notes (ref : Ref) : (checkWritable span ref).Notes A fun _ ms => [] = ms ∧ ref.isWritable = true := by
  unfold checkWritable
  split
  · rename_i h
    exact .pure ⟨rfl, h⟩
  · exact .fault

/-- The checks mention nothing. -/
theorem signature_notes (seen : List String) (ps : List Param) : (signature span seen ps).Notes A fun _ ms => [] = ms := by
  induction ps generalizing seen with
  | nil => exact .pure rfl
  | cons p ps ih =>
    unfold signature
    split
    · exact .fault
    · split
      · exact .fault
      · split
        · split
          · exact .pure rfl
          · exact .fault
        · exact ih _

theorem checkFd_notes (fd : UInt32) : (checkFd span fd).Notes A fun _ ms => [] = ms := .check rfl

theorem checkTargets_notes (targets : List Source.Target) : (checkTargets span targets).Notes A fun _ ms => [] = ms := by
  unfold checkTargets
  dsimp only
  split
  · exact .fault
  · split
    · exact .fault
    · exact .pure rfl

theorem checkIndexable_notes (name : String) (ref : Ref) : (checkIndexable span name ref).Notes A fun _ ms => [] = ms := by
  cases ref with
  | env n => exact .fault
  | _ => exact .pure rfl

/-- Temporary targets that pass the check take one value each, and as a whole. -/
theorem checkTemporary_notes (targets : List Source.Target) : (checkTemporary span targets).Notes A fun _ ms =>
    [] = ms ∧ ∀ t ∈ targets, t.rest = false ∧ t.indices = [] := by
  unfold checkTemporary
  split
  · exact .fault
  · rename_i h
    exact .pure ⟨rfl, by simpa using List.find?_eq_none.1 h⟩

end Checks

/-! ## Frames -/

/-- A resolution in a frame of its own succeeds if it does inside, and hands out what the frame takes along. -/
theorem run_inFrame_ok {α : Type} {names : List String} {body : Compile α} {s u : Scope} {a : α} {captures : List Capture}
    (h : (inFrame names body).run.run s = (.ok (a, captures), u)) :
    ∃ t, body.run.run (names.foldl Scope.declare s.push) = (.ok a, t) ∧ captures = t.pop.1 ∧ u = t.pop.2 := by
  cases hrun : body.run.run (names.foldl Scope.declare s.push) with
  | mk r t =>
    change body (names.foldl Scope.declare s.push) = (r, t) at hrun
    change inFrame names body s = _ at h
    simp only [inFrame, hrun] at h
    cases r with
    | ok a' =>
      cases h
      exact ⟨t, rfl, rfl, rfl⟩
    | error e => cases h

/-! ## Deletions -/

/-- A reference that is read drops nothing. -/
theorem Ref.drop_not_mem_mentions (ref : Ref) (name : String) : Mention.drop name ∉ ref.mentions := by
  induction ref with
  | member ns _ ih => exact ih
  | _ => simp [Ref.mentions]

/-- A reference that is changed drops nothing. -/
theorem Ref.drop_not_mem_changeMentions (ref : Ref) (name : String) : Mention.drop name ∉ ref.changeMentions := by
  simp [Ref.changeMentions, ref.drop_not_mem_mentions name]

/-- An element is deleted through its variable. -/
theorem Code.Deletion.mentions_sub (ref : Ref) (indices : List Code.Operand) (ds : List Code.Deletion) :
    ∀ m ∈ Code.deletionsMentions (⟨ref, indices⟩ :: ds),
      m ∈ ref.changeMentions ++ Code.operandsMentions indices ++ Code.deletionsMentions ds ∨ ∃ name, m = .drop name := by
  intro m hm
  have hself : .change ref ∈ ref.changeMentions ++ Code.operandsMentions indices ++ Code.deletionsMentions ds := by
    simp [Ref.changeMentions]
  rcases List.mem_append.1 hm with hm | hm
  · split at hm
    · split at hm
      · rcases List.mem_cons.1 hm with hm | hm
        · exact .inr ⟨_, hm⟩
        · exact .inl (List.mem_singleton.1 hm ▸ hself)
      · exact .inl (List.mem_singleton.1 hm ▸ hself)
    · exact .inl (List.mem_append_left _ hm)
  · exact .inl (List.mem_append_right _ hm)

/-- What is deleted on the way to an element counts. -/
theorem Code.Deletion.drops_sub (ref : Ref) (indices : List Code.Operand) (ds : List Code.Deletion) :
    ∀ name, .drop name ∈ ref.changeMentions ++ Code.operandsMentions indices ++ Code.deletionsMentions ds →
      .drop name ∈ Code.deletionsMentions (⟨ref, indices⟩ :: ds) := by
  intro name hm
  unfold Code.deletionsMentions
  rcases List.mem_append.1 hm with hm | hm
  · refine List.mem_append_left _ ?_
    cases indices with
    | nil =>
      simp only [Code.operandsMentions, List.append_nil] at hm
      exact absurd hm (ref.drop_not_mem_changeMentions name)
    | cons i is => exact hm
  · exact List.mem_append_right _ hm

/-! ## Variables -/

section ByMention

variable {M : Account Mention} (hM : M.ByMention) (span : Span)
include hM

/-- A name that is read mentions what it finds. -/
theorem resolveRead_writes (name : String) : (resolveRead span name).Writes M fun ref ms => ref.mentions = ms := by
  unfold resolveRead
  split
  · rename_i front rest _
    split
    · refine .bind (isLocal_writes hM rest) fun b ms hb => ?_
      split
      · rename_i h
        exact .pure (by simp [Ref.mentions, ← hb h])
      · exact .fault
    · split
      · refine .bind (resolveUp_writes hM rest) fun r ms hr => ?_
        split
        · exact .pure (by simp [← hr, found])
        · exact .fault
      · split
        · exact .pure rfl
        · split
          · rename_i h
            simp only [Bool.and_eq_true] at h
            exact .fixed hM h.2 rfl
          · refine .bind (resolve_writes hM _) fun r ms hr => ?_
            split
            · exact .pure (by simp [← hr.1, found, Ref.mentions])
            · exact .fault
  · refine .bind (resolve_writes hM name) fun r ms hr => ?_
    split
    · exact .pure (by simp [← hr.1, found])
    · split
      · rename_i h
        exact Writes.fixed hM h (by simp [← hr.1, found, Ref.mentions])
      · exact .fault

/-- What passes the check can be changed. -/
theorem checkWritable_writes (ref : Ref) : (checkWritable span ref).Writes M fun _ ms => [.change ref] = ms := by
  unfold checkWritable
  split
  · rename_i h
    exact .change hM h rfl
  · exact .fault

/-- A target mentions what it changes. -/
theorem resolveTarget_writes (name : String) : (resolveTarget span name).Writes M fun ref ms => ref.changeMentions = ms := by
  unfold resolveTarget
  split
  · exact .fault
  · split
    · rename_i front rest _
      split
      · exact .bind (declare_writes hM rest) fun _ ms h => .pure (by simp [← h])
      · split
        · exact .change hM rfl rfl
        · refine .bind (resolveRead_writes hM span name) fun ref ms h => ?_
          exact .bind (checkWritable_writes hM span ref) fun _ ns h' => .pure (by simp [← h, ← h', Ref.changeMentions])
    · refine .bind (resolve_writes hM name) fun r ms hr => ?_
      split
      · exact Writes.change hM (hr.2 _ rfl) (by simp [← hr.1, found, Ref.changeMentions])
      · split
        · exact .fault
        · exact .bind (declare_writes hM name) fun _ ms h => .pure (by simp [← h, ← hr.1, found])

/-- A head mentions the function that it finds. -/
theorem resolveHead_writes (name : String) : (resolveHead span name).Writes M fun head ms => head.mentions = ms := by
  unfold resolveHead
  split
  · exact .pure rfl
  · split
    · exact .pure rfl
    · split
      · exact .bind (resolveRead_writes hM span _) fun ref ms h => .pure (by simp [Code.Head.mentions, h])
      · refine .bind (resolve_writes hM _) fun r ms hr => ?_
        split
        · exact .pure (by simp [Code.Head.mentions, ← hr.1, found])
        · split
          · exact .pure (by simp [Code.Head.mentions, ← hr.1, found])
          · exact .pure (by simp [Code.Head.mentions, ← hr.1, found])

/-! ## Programs -/

/-- A lambda mentions what it takes along. -/
theorem lambdaWith_writes (src : String) (params : List Param) {body : Compile Code.Block}
    (hbody : body.Writes M fun b ms => b.mentions = ms) :
    (lambdaWith src span params body).Writes M fun op ms => op.mentions = ms := by
  refine .bind (signature_notes span [] params) fun sig ms hms => ?_
  subst hms
  intro s op u hs hr
  obtain ⟨⟨block, captures⟩, t, hframe, hpure⟩ := run_bind_ok hr
  cases hpure
  obtain ⟨inner, hrun, hcaptures, rfl⟩ := run_inFrame_ok hframe
  obtain ⟨ms, rfl, hmoves⟩ := hbody _ _ _ (hM.inside hs _) hrun
  exact ⟨_, rfl, hM.close hmoves hcaptures⟩

/-- A `use` form mentions the variable that it binds. -/
theorem compileUse_writes (args : List Source.Word) : (compileUse span args).Writes M fun op ms => op.mentions = ms := by
  unfold compileUse
  extract_lets load
  have hload : ∀ use, (load use).Writes M fun op ms => op.mentions = ms := by
    intro use
    dsimp only [load]
    split
    · exact .fault
    · split
      · exact .fault
      · exact .bind (declare_writes hM _) fun _ ms h => .pure (by simp [← h, Code.Special.mentions])
  split
  · rename_i spec
    exact hload (spec.literal?, none)
  · rename_i spec alias_
    exact hload (spec.literal?, some alias_)
  · exact .bind (P := fun _ _ => False) .fault fun _ _ h => h.elim

open Code Source

/-- The resolution of a word, and of what it is made of, writes down what the results mention. -/
structure Source.Word.Writes (M : Account Mention) (src : String) (w : Source.Word) : Prop where
  word : ∀ span, (compileWord src span w).Writes M fun op ms => op.mentions = ms
  body : ∀ params body, w = .lambda params body → (compileChunk src body).Writes M fun b ms => b.mentions = ms
  indices : ∀ base is, w = .index base is → ∀ span, (compileWords src span is).Writes M fun ops ms =>
    operandsMentions ops = ms

namespace Source.Word.Writes

omit hM

variable {src : String} {w : Source.Word} {ws : List Source.Word}

/-! ### Special forms -/

/-- An inline body mentions what it is made of, and so do the other special forms. -/
theorem inline (hw : w.Writes M src) (what : String) :
    (compileInline src span what w).Writes M fun b ms => b.mentions = ms := by
  unfold compileInline
  split
  · exact hw.body _ _ rfl
  · exact .fault

theorem branches : (ws : List Source.Word) → (∀ w ∈ ws, w.Writes M src) →
    (compileBranches src span ws).Writes M fun x ms => branchesMentions x.1 ++ optionalMentions x.2 = ms
  | [], _ => .fault
  | [condition], h => by
    unfold compileBranches
    exact .bind ((h condition (by simp)).word span) fun _ _ _ => .fault
  | [condition, body], h => by
    unfold compileBranches
    refine .bind ((h condition (by simp)).word span) fun condition ms hc => ?_
    exact .bind ((h body (by simp)).inline span _) fun body ns hb =>
      .pure (by simp [branchesMentions, optionalMentions, hc, hb])
  | condition :: body :: next :: rest, h => by
    unfold compileBranches
    refine .bind ((h condition (by simp)).word span) fun condition ms hc => ?_
    refine .bind ((h body (by simp)).inline span _) fun body ms' hb => ?_
    split
    · refine .bind (branches rest fun w hw => h w (by simp [hw])) fun x ns hx => ?_
      exact .pure (by simp [branchesMentions, hc, hb, ← hx])
    · split
      · split
        · exact .fault
        · rename_i otherwise rest
          refine .bind ((h otherwise (by simp)).inline span _) fun otherwise ns ho => ?_
          split
          · exact .pure (by simp [branchesMentions, optionalMentions, hc, hb, ho])
          · exact .fault
      · exact .fault

theorem otherwise (h : ∀ w ∈ ws, w.Writes M src) (form : String) :
    (compileElse src span form ws).Writes M fun b ms => optionalMentions b = ms := by
  unfold compileElse
  split
  · exact .pure rfl
  · rename_i keyword body
    split
    · exact .bind ((h body (by simp)).inline span _) fun body ms hb => .pure (by simp [optionalMentions, hb])
    · exact .fault
  · exact .fault

theorem whileLoop (h : ∀ w ∈ ws, w.Writes M src) : (compileWhile src span ws).Writes M fun op ms => op.mentions = ms := by
  unfold compileWhile
  split
  · exact .fault
  · rename_i condition
    exact .bind ((h condition (by simp)).word span) fun _ _ _ => .fault
  · rename_i condition body rest
    refine .bind ((h condition (by simp)).word span) fun condition ms hc => ?_
    refine .bind ((h body (by simp)).inline span _) fun body ms' hb => ?_
    refine .bind (otherwise span (fun w hw => h w (by simp [hw])) _) fun otherwise ns ho => ?_
    exact .pure (by simp [Special.mentions, hc, hb, ho])

include hM

theorem forLoop (h : ∀ w ∈ ws, w.Writes M src) : (compileFor src span ws).Writes M fun op ms => op.mentions = ms := by
  unfold compileFor
  split
  · exact .fault
  · rename_i name container
    refine .bind ((h container (by simp)).word span) fun _ _ _ => ?_
    exact .bind (resolveTarget_writes hM span name) fun _ _ _ => .fault
  · rename_i name container body rest
    refine .bind ((h container (by simp)).word span) fun container ms hc => ?_
    refine .bind (resolveTarget_writes hM span name) fun ref ms' hr => ?_
    refine .bind ((h body (by simp)).inline span _) fun body ms'' hb => ?_
    refine .bind (otherwise span (fun w hw => h w (by simp [hw])) _) fun otherwise ns ho => ?_
    exact .pure (by simp [Special.mentions, hc, hr, hb, ho])
  · exact .fault

/-- The clauses of a try form come in a fixed order: past a stage, the clauses of that stage are absent. -/
theorem clauses (stage : Nat) : (ws : List Source.Word) → (∀ w ∈ ws, w.Writes M src) →
    (compileClauses src span stage ws).Writes M fun c ms =>
      handlerMentions c.handler ++ optionalMentions c.otherwise ++ optionalMentions c.finally_ = ms ∧
        (1 ≤ stage → c.handler = none) ∧ (2 ≤ stage → c.otherwise = none) ∧ (3 ≤ stage → c.finally_ = none)
  | [], _ => .pure ⟨rfl, fun _ => rfl, fun _ => rfl, fun _ => rfl⟩
  | [keyword], _ => by
    unfold compileClauses
    split
    · exact .fault
    · split
      · exact .fault
      · split <;> exact .fault
  | keyword :: next :: rest, h => by
    have hbefore : ∀ {b : Bool} {n : Nat}, (b && decide (stage < n)) = true → stage < n :=
      fun h => of_decide_eq_true ((Bool.and_eq_true _ _).mp h).2
    have hrest : ∀ w ∈ rest, w.Writes M src := fun w hw => h w (by simp [hw])
    unfold compileClauses
    split
    · rename_i hk
      have hstage := hbefore hk
      split
      · exact .bind (resolveTarget_writes hM span _) fun _ _ _ => .fault
      · rename_i name body rest
        refine .bind (resolveTarget_writes hM span _) fun ref ms hr => ?_
        refine .bind ((h body (by simp)).inline span _) fun body ms' hb => ?_
        refine .bind (clauses 1 rest fun w hw => h w (by simp [hw])) fun clauses ns hc => .pure ?_
        obtain ⟨hc, hnone, -⟩ := hc
        rw [hnone (Nat.le_refl 1)] at hc
        refine ⟨?_, fun hs => by omega, fun hs => by omega, fun hs => by omega⟩
        simp [handlerMentions, hr, hb, ← hc]
      · refine .bind ((h next (by simp)).inline span _) fun body ms hb => ?_
        refine .bind (clauses 1 rest hrest) fun clauses ns hc => .pure ?_
        obtain ⟨hc, hnone, -⟩ := hc
        rw [hnone (Nat.le_refl 1)] at hc
        refine ⟨?_, fun hs => by omega, fun hs => by omega, fun hs => by omega⟩
        simp [handlerMentions, hb, ← hc]
    · split
      · rename_i hk
        have hstage := hbefore hk
        refine .bind ((h next (by simp)).inline span _) fun body ms hb => ?_
        refine .bind (clauses 2 rest hrest) fun clauses ns hc => .pure ?_
        obtain ⟨hc, hhandler, hotherwise, -⟩ := hc
        rw [hhandler (by omega), hotherwise (Nat.le_refl 2)] at hc
        refine ⟨?_, fun _ => hhandler (by omega), fun hs => by omega, fun hs => by omega⟩
        simp [handlerMentions, optionalMentions, hhandler, hb, ← hc]
      · split
        · rename_i hk
          have hstage := hbefore hk
          refine .bind ((h next (by simp)).inline span _) fun body ms hb => ?_
          refine .bind (clauses 3 rest hrest) fun clauses ns hc => .pure ?_
          obtain ⟨hc, hhandler, hotherwise, hfinally⟩ := hc
          rw [hhandler (by omega), hotherwise (by omega), hfinally (Nat.le_refl 3)] at hc
          refine ⟨?_, fun _ => hhandler (by omega), fun _ => hotherwise (by omega), fun hs => by omega⟩
          simp [handlerMentions, optionalMentions, hhandler, hotherwise, hb, ← hc]
        · exact .fault

theorem attempt (h : ∀ w ∈ ws, w.Writes M src) : (compileTry src span ws).Writes M fun op ms => op.mentions = ms := by
  unfold compileTry
  split
  · exact .fault
  · rename_i body rest
    refine .bind ((h body (by simp)).inline span _) fun body ms hb => ?_
    refine .bind (clauses hM span 0 rest fun w hw => h w (by simp [hw])) fun clauses ms' hc => ?_
    split
    · exact .fault
    · exact .pure (by simp [Special.mentions, hb, ← hc.1])

theorem define (h : ∀ w ∈ ws, w.Writes M src) : (compileFn src span ws).Writes M fun op ms => op.mentions = ms := by
  unfold compileFn
  split
  · rename_i name params body
    split
    · exact .fault
    · refine .bind (declare_writes hM _) fun _ ms hn => ?_
      refine .bind (lambdaWith_writes hM span src params ((h _ (by simp)).body params body rfl)) fun op ns ho => ?_
      exact .pure (by simp [Special.mentions, ← hn, ho])
  · exact .fault

theorem deletions : (ws : List Source.Word) → (∀ w ∈ ws, w.Writes M src) →
    (compileDeletions src span ws).Writes M fun ds ms => deletionsMentions ds = ms
  | [], _ => .pure rfl
  | w :: rest, h => by
    have hrest := deletions rest fun w hw => h w (by simp [hw])
    unfold compileDeletions
    split
    · exact .pure rfl
    · rename_i he
      cases he
      refine .bind (undeclare_writes hM _) fun b ms hd => ?_
      split
      · exact .bind hrest fun ds ns hds => .pure (by simp [deletionsMentions, ← hd, hds])
      · exact .fault
    · rename_i name indices _ he
      cases he
      refine .sub hM (P := fun ds ns => ∃ ref is ds', ds = ⟨ref, is⟩ :: ds' ∧
        ref.changeMentions ++ operandsMentions is ++ deletionsMentions ds' = ns) ?_ fun ds ns hds => ?_
      · refine .bind (resolveRead_writes hM span name) fun ref ms hr => ?_
        refine .bind (checkWritable_writes hM span ref) fun _ ms₀ h₀ => ?_
        refine .bind ((h (.index (.bare name) indices) List.mem_cons_self).indices _ indices rfl span) fun is ms' hi => ?_
        exact .bind hrest fun ds' ns hds => .pure ⟨ref, is, ds', rfl, by simp [Ref.changeMentions, hr, ← h₀, hi, hds]⟩
      · obtain ⟨ref, is, ds', rfl, rfl⟩ := hds
        exact ⟨_, rfl, Deletion.mentions_sub ref is ds', Deletion.drops_sub ref is ds'⟩
    · exact .fault
    · exact .fault

end Source.Word.Writes

end ByMention

/-! ### Chunks and their parts -/

section Chunks

open Code Source

variable {M : Account Mention} (src : String)

mutual

/-- A resolved chunk mentions what its resolution wrote down. -/
theorem compileChunk_writes (hM : M.ByMention) :
    (c : Source.Chunk) → (compileChunk src c).Writes M fun b ms => b.mentions = ms
  | ⟨ps⟩ => by
    unfold compileChunk
    exact .bind (compilePipelines_writes hM ps) fun ps' ms h => .pure (by simp [Block.mentions, h])

/-- Programs mention what they resolve to; the following are the cases of pipelines, forms and words. -/
theorem compilePipelines_writes (hM : M.ByMention) :
    (ps : List Source.Pipeline) → (compilePipelines src ps).Writes M fun ps ms => pipelinesMentions ps = ms
  | [] => .pure rfl
  | p :: ps => by
    unfold compilePipelines
    refine .bind (compilePipeline_writes hM p) fun p' ms h => ?_
    exact .bind (compilePipelines_writes hM ps) fun ps' ns h' => .pure (by simp [pipelinesMentions, h, h'])

theorem compilePipeline_writes (hM : M.ByMention) :
    (p : Source.Pipeline) → (compilePipeline src p).Writes M fun p ms => p.mentions = ms
  | ⟨forms, background, span⟩ => by
    unfold compilePipeline
    exact .bind (compileForms_writes hM forms) fun fs ms h => .pure (by simp [Pipeline.mentions, h])

theorem compileForms_writes (hM : M.ByMention) :
    (fs : List Source.Form) → (compileForms src fs).Writes M fun fs ms => formsMentions fs = ms
  | [] => .pure rfl
  | f :: fs => by
    unfold compileForms
    refine .bind (compileForm_writes hM f) fun f' ms h => ?_
    exact .bind (compileForms_writes hM fs) fun fs' ns h' => .pure (by simp [formsMentions, h, h'])

theorem compileForm_writes (hM : M.ByMention) : (f : Source.Form) → (compileForm src f).Writes M fun f ms => f.mentions = ms
  | ⟨temps, body, redirs, span⟩ => by
    unfold compileForm
    refine .bind (compileRedirs_writes hM span redirs) fun redirs ms h => ?_
    refine .bind (compileTemps_writes hM span temps) fun temps ms' h' => ?_
    exact .bind (compileBody_writes hM span body) fun action ns h'' => .pure (by simp [Form.mentions, h, h', h''])

theorem compileRedirs_writes (hM : M.ByMention) (span : Span) :
    (rs : List Source.Redir) → (compileRedirs src span rs).Writes M fun rs ms => redirsMentions rs = ms
  | [] => .pure rfl
  | ⟨fd, mode, target⟩ :: rs => by
    unfold compileRedirs
    refine .bind (checkFd_notes span fd) fun _ ms₀ h₀ => ?_
    refine .bind (compileRedirTarget_writes hM span mode target) fun target ms h => ?_
    exact .bind (compileRedirs_writes hM span rs) fun rs ns h' => .pure (by simp [redirsMentions, ← h₀, h, h'])

theorem compileRedirTarget_writes (hM : M.ByMention) (span : Span) (mode : RedirMode) :
    (target : Source.RedirTarget) → (compileRedirTarget src span mode target).Writes M fun target ms => target.mentions = ms
  | .path word => by
    unfold compileRedirTarget
    exact .bind (compileWord_writes hM span word) fun op ms h => .pure (by simp [RedirTarget.mentions, h])
  | .fd n => by
    unfold compileRedirTarget
    refine .bind (checkFd_notes span n) fun _ ms h => ?_
    split
    · exact .fault
    · exact .pure (by simp [RedirTarget.mentions, ← h])
  | .close => .pure rfl

theorem compileTemps_writes (hM : M.ByMention) (span : Span) :
    (as : List Source.Assignment) → (compileTemps src span as).Writes M fun as ms => assignsMentions as = ms
  | [] => .pure rfl
  | a :: as => by
    unfold compileTemps
    refine .bind (checkTemporary_notes span a.targets) fun _ ms₀ ⟨h₀, _⟩ => ?_
    refine .bind (compileAssign_writes hM span a) fun a ms h => ?_
    exact .bind (compileTemps_writes hM span as) fun as ns h' => .pure (by simp [assignsMentions, ← h₀, h, h'])

theorem compileAssign_writes (hM : M.ByMention) (span : Span) :
    (a : Source.Assignment) → (compileAssign src span a).Writes M fun a ms => a.mentions = ms
  | ⟨targets, values⟩ => by
    unfold compileAssign
    refine .bind (compileWords_writes hM span values) fun values ms h => ?_
    refine .bind (checkTargets_notes span targets) fun _ ms₀ h₀ => ?_
    exact .bind (compileTargets_writes hM span targets) fun targets ns h' => .pure (by simp [Assign.mentions, h, ← h₀, h'])

theorem compileTargets_writes (hM : M.ByMention) (span : Span) :
    (ts : List Source.Target) → (compileTargets src span ts).Writes M fun ts ms => targetsMentions ts = ms
  | [] => .pure rfl
  | ⟨name, [], rest⟩ :: ts => by
    unfold compileTargets
    refine .bind (resolveTarget_writes hM span name) fun ref ms h => ?_
    exact .bind (compileTargets_writes hM span ts) fun ts ns h' => .pure (by simp [targetsMentions, operandsMentions, h, h'])
  | ⟨name, i :: is, rest⟩ :: ts => by
    unfold compileTargets
    refine .bind (resolveRead_writes hM span name) fun ref ms h => ?_
    refine .bind (checkWritable_writes hM span ref) fun _ ms₀ h₀ => ?_
    refine .bind (checkIndexable_notes span name ref) fun _ ms₁ h₁ => ?_
    refine .bind (compileWords_writes hM span (i :: is)) fun indices ms' h' => ?_
    exact .bind (compileTargets_writes hM span ts) fun ts ns h'' =>
      .pure (by simp [targetsMentions, Ref.changeMentions, h, ← h₀, ← h₁, h', h''])

theorem compileBody_writes (hM : M.ByMention) (span : Span) :
    (b : Source.Body) → (compileBody src span b).Writes M fun action ms => action.mentions = ms
  | .assign a => by
    unfold compileBody
    exact .bind (compileAssign_writes hM span a) fun a ms h => .pure (by simp [Action.mentions, h])
  | .command c => compileCommand_writes hM span c

theorem compileCommand_writes (hM : M.ByMention) (span : Span) :
    (c : Source.Command) → (compileCommand src span c).Writes M fun action ms => action.mentions = ms
  | ⟨head, args, opts⟩ => by
    have hcall : ∀ {γ : Type} {x : Compile γ} (toHead : γ → Code.Head),
      x.Writes M (fun a ms => (toHead a).mentions = ms) → (do
        let a ← x
        let args ← compileWords src span args
        let opts ← compileOpts src span opts
        return .call ⟨toHead a, args, opts⟩ : Compile Code.Action).Writes M fun action ms => action.mentions = ms := by
      intro γ x toHead hx
      refine .bind hx fun head ms h => ?_
      refine .bind (compileWords_writes hM span args) fun args ms' h' => ?_
      exact .bind (compileOpts_writes hM span opts) fun opts ns h'' =>
        .pure (by simp [Action.mentions, Call.mentions, h, h', h''])
    have hdynamic := compileWord_writes hM span head
    have hspecial : ∀ {x : Compile Code.Special}, x.Writes M (fun op ms => op.mentions = ms) →
        (do return .special (← x) : Compile Code.Action).Writes M fun action ms => action.mentions = ms :=
      fun hx => .bind hx fun op ms h => .pure (by simp [Action.mentions, h])
    have hwords := compileWords_writes hM span args
    have hargs := words_writes hM args
    cases head with
    | bare name =>
      unfold compileCommand
      split
      · split
        · exact .fault
        · split
          · exact .bind (Word.Writes.branches span args hargs) fun x ms h =>
              .pure (by simp [Action.mentions, Special.mentions, h])
          · exact hspecial (Word.Writes.whileLoop span hargs)
          · exact hspecial (Word.Writes.forLoop hM span hargs)
          · exact hspecial (Word.Writes.attempt hM span hargs)
          · exact hspecial (Word.Writes.define hM span hargs)
          · exact .bind hwords fun ops ms h => .pure (by simp [Action.mentions, Special.mentions, h])
          · exact .bind hwords fun ops ms h => .pure (by simp [Action.mentions, Special.mentions, h])
          · exact .bind (Word.Writes.deletions hM span args hargs) fun ds ms h =>
              .pure (by simp [Action.mentions, Special.mentions, h])
          · exact hspecial (compileUse_writes hM span args)
      · exact hcall id (resolveHead_writes hM span name)
    | quoted name =>
      unfold compileCommand
      exact hcall id (resolveHead_writes hM span name)
    | _ =>
      unfold compileCommand
      exact hcall .dynamic hdynamic

theorem compileOpts_writes (hM : M.ByMention) (span : Span) :
    (os : List Source.Opt) → (compileOpts src span os).Writes M fun os ms => optsMentions os = ms
  | [] => .pure rfl
  | ⟨name, value⟩ :: os => by
    unfold compileOpts
    refine .bind (compileWord_writes hM span value) fun value ms h => ?_
    exact .bind (compileOpts_writes hM span os) fun os ns h' => .pure (by simp [optsMentions, h, h'])

theorem compileWords_writes (hM : M.ByMention) (span : Span) :
    (ws : List Source.Word) → (compileWords src span ws).Writes M fun ops ms => operandsMentions ops = ms
  | [] => .pure rfl
  | w :: ws => by
    unfold compileWords
    refine .bind (compileWord_writes hM span w) fun op ms h => ?_
    exact .bind (compileWords_writes hM span ws) fun ops ns h' => .pure (by simp [operandsMentions, h, h'])

theorem compilePairs_writes (hM : M.ByMention) (span : Span) :
    (ps : List (Source.Word × Source.Word)) → (compilePairs src span ps).Writes M fun ps ms => pairsMentions ps = ms
  | [] => .pure rfl
  | (k, v) :: ps => by
    unfold compilePairs
    refine .bind (compileWord_writes hM span k) fun k ms h => ?_
    refine .bind (compileWord_writes hM span v) fun v ms' h' => ?_
    exact .bind (compilePairs_writes hM span ps) fun ps ns h'' => .pure (by simp [pairsMentions, h, h', h''])

theorem compileWord_writes (hM : M.ByMention) (span : Span) :
    (w : Source.Word) → (compileWord src span w).Writes M fun op ms => op.mentions = ms
  | .bare s => .pure rfl
  | .quoted s => .pure rfl
  | .variable name explode => by
    unfold compileWord
    exact .bind (resolveRead_writes hM span name) fun ref ms h => .pure (by simp [Operand.mentions, h])
  | .index base indices => by
    unfold compileWord
    refine .bind (compileWord_writes hM span base) fun base ms h => ?_
    exact .bind (compileWords_writes hM span indices) fun indices ns h' => .pure (by simp [Operand.mentions, h, h'])
  | .list items => by
    unfold compileWord
    exact .bind (compileWords_writes hM span items) fun items ms h => .pure (by simp [Operand.mentions, h])
  | .map pairs => by
    unfold compileWord
    exact .bind (compilePairs_writes hM span pairs) fun pairs ms h => .pure (by simp [Operand.mentions, h])
  | .lambda params body => by
    unfold compileWord
    refine .bind (lambdaWith_writes hM span src params (compileChunk_writes hM body)) fun op ms h => ?_
    exact .pure (by simp [Operand.mentions, h])
  | .capture body => by
    unfold compileWord
    exact .bind (compileChunk_writes hM body) fun body ms h => .pure (by simp [Operand.mentions, h])
  | .rescue body => by
    unfold compileWord
    exact .bind (compileChunk_writes hM body) fun body ms h => .pure (by simp [Operand.mentions, h])
  | .compound [part] => by
    unfold compileWord
    exact compileWord_writes hM span part
  | .compound [] => .pure rfl
  | .compound (p :: p' :: parts) => by
    unfold compileWord
    exact .bind (compileWords_writes hM span (p :: p' :: parts)) fun parts ms h => .pure (by simp [Operand.mentions, h])
  | .wildcard pattern mayMiss => .pure rfl

/-- The body of a lambda mentions what it resolves to. -/
theorem body_writes (hM : M.ByMention) : (w : Source.Word) → ∀ params body, w = .lambda params body →
    (compileChunk src body).Writes M fun b ms => b.mentions = ms
  | .lambda _ body => fun _ _ h => by
    cases h
    exact compileChunk_writes hM body
  | .bare _ | .quoted _ | .variable _ _ | .index _ _ | .list _ | .map _ | .capture _ | .rescue _ | .compound _
      | .wildcard _ _ =>
    fun _ _ h => nomatch h

/-- The indices of a word mention what they resolve to. -/
theorem indices_writes (hM : M.ByMention) : (w : Source.Word) → ∀ base is, w = .index base is → ∀ span,
    (compileWords src span is).Writes M fun ops ms => operandsMentions ops = ms
  | .index _ is => fun _ _ h span => by
    cases h
    exact compileWords_writes hM span is
  | .bare _ | .quoted _ | .variable _ _ | .list _ | .map _ | .lambda _ _ | .capture _ | .rescue _ | .compound _
      | .wildcard _ _ =>
    fun _ _ h => nomatch h

/-- Words mention what they resolve to. -/
theorem words_writes (hM : M.ByMention) : (ws : List Source.Word) → ∀ w ∈ ws, w.Writes M src
  | [] => fun _ hw => nomatch hw
  | w :: ws => List.forall_mem_cons.2 ⟨⟨fun span => compileWord_writes hM span w, body_writes hM w,
      indices_writes hM w⟩, words_writes hM ws⟩

end

end Chunks

/-- A resolved chunk reaches only for what the scope it leaves offers. -/
theorem Source.Chunk.compile_leads {chunk : Source.Chunk} {src : String} {s t : Scope} {block : Code.Block} (hs : s.Linked)
    (h : chunk.compile src s = (.ok block, t)) : Scope.Leads block.mentions s t := by
  unfold Source.Chunk.compile at h
  split at h
  · rename_i hrun
    cases h
    obtain ⟨ms, rfl, hleads⟩ := compileChunk_writes src mentioned_byMention chunk s block t hs hrun
    exact hleads
  · nomatch h

/-! ## Top levels -/

/-- The frame of a top level, which has none around it. -/
theorem Scope.Linked.ofGlobals (names : List String) : (Scope.ofGlobals names).Linked := by
  refine ⟨?_, trivial⟩
  suffices hfold : ∀ f : StaticFrame, f.LinkedTo [] → (names.foldl StaticFrame.declare f).LinkedTo [] from
    hfold .empty ⟨List.nodup_nil, fun _ hc => nomatch hc⟩
  induction names with
  | nil => exact fun _ hf => hf
  | cons name names ih =>
    refine fun f hf => ih _ ⟨?_, ?_⟩
    · rw [StaticFrame.captures_declare]
      exact hf.nodup
    · rw [StaticFrame.captures_declare]
      exact hf.captures

/-- A program of a top level that knows some names reaches for those of the top level it leaves, or names it deletes; it
takes nothing from outside, its lambdas fit, and what it changes can be. The names it knew are known afterwards, or it
deletes them. -/
structure TopLevel (names after : List String) (block : Code.Block) : Prop where
  locals : ∀ name, .local name ∈ block.mentions → name ∈ after ∨ .drop name ∈ block.mentions
  taken : ∀ name level, .taken name level ∉ block.mentions
  fixed : ∀ name, .fixed name ∈ block.mentions → isFixedVariable name = true
  make : ∀ op, .make op ∈ block.mentions → op.Linked
  change : ∀ ref, .change ref ∈ block.mentions → ref.isWritable = true
  known : ∀ name ∈ names, name ∈ after ∨ .drop name ∈ block.mentions

/-- Names that are declared are local. -/
theorem StaticFrame.mem_declareAll {names : List String} {f : StaticFrame} {name : String}
    (h : name ∈ names ∨ name ∈ f.locals) : name ∈ (names.foldl StaticFrame.declare f).locals := by
  have hlocal : ∀ {g : StaticFrame} {n : String}, g.hasLocal n = true ↔ n ∈ g.locals := by simp [StaticFrame.hasLocal]
  induction names generalizing f with
  | nil => exact h.resolve_left (by simp)
  | cons n names ih =>
    refine ih ?_
    rcases h with h | h
    · rcases List.mem_cons.1 h with rfl | h
      · exact .inr (hlocal.1 (f.hasLocal_declare_self name))
      · exact .inl h
    · exact .inr (hlocal.1 (StaticFrame.hasLocal_declare (hlocal.2 h)))

/-- A chunk that resolves at a top level is code for it. -/
theorem Source.Chunk.compile_topLevel {chunk : Source.Chunk} {src : String} {names : List String} {t : Scope}
    {block : Code.Block}
    (h : chunk.compile src (.ofGlobals names) = (.ok block, t)) : TopLevel names t.globals block := by
  have hleads := Source.Chunk.compile_leads (.ofGlobals names) h
  obtain ⟨inner, outer⟩ := t
  cases hleads.outer
  have hlocal : ∀ {n : String}, inner.hasLocal n = true ↔ n ∈ inner.locals := by simp [StaticFrame.hasLocal]
  refine ⟨fun name hm => ?_, fun name level hm => ?_, fun name hm => hleads.bound _ hm, fun op hm => hleads.bound _ hm,
    fun ref hm => hleads.bound _ hm, fun name hn => ?_⟩
  · exact (hleads.bound _ hm).imp_left hlocal.1
  · obtain ⟨c, hc, -, -⟩ := hleads.bound _ hm
    cases hleads.linked.1.captures c hc
  · refine (hleads.locals name ?_).imp_left hlocal.1
    simpa [StaticFrame.hasLocal, Scope.ofGlobals] using StaticFrame.mem_declareAll (f := .empty) (.inl hn)

end DualShell
