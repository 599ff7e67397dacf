import DualShell.Proofs.Assigned.Resolve

/-!
# Resolving straight programs

What the resolution of a straight and steady program writes down is what the resolved program does
(`compileChunk_touches`), so that with no name bound at the start it is covered (`Source.Chunk.compile_covers`).
-/

namespace DualShell

open Compile Source Code

/-! ## Elements -/

/-- The resolution of an element: its variable, its indices, and what comes after. -/
structure Element (name : String) (indices : List Word) (ref : Ref) (ops : List Operand) (later ts : List Touch) : Prop where
  writable : ref.isWritable = true
  spelled : ref.Spelled name
  length : ops.length = indices.length
  drops : ∀ n, .drop n ∈ operandsTouches ops → n ∈ drops (wordsParts indices)
  order : ts = ref.finds ++ (operandsTouches ops ++ later)

namespace Element

variable {name : String} {indices : List Word} {ref : Ref} {ops : List Operand} {later ts : List Touch}

/-- The variable of an element is reached after the indices. -/
theorem flows {s t : Scope} (h : Element name indices ref ops later ts) (hstays : Stays name indices)
    (hflows : Scope.Flows ts s t) : Scope.Flows (operandsTouches ops ++ ref.changes ++ later) s t := by
  refine Scope.Flows.element (h.order ▸ hflows) h.writable fun n hn hdrop => ?_
  obtain ⟨hne, hne'⟩ := hstays n (h.drops n hdrop)
  exact (h.spelled n hn).elim hne hne'

/-- An element is followed by what comes after it. -/
theorem follows {ps : List Part} (h : Element name indices ref ops later ts)
    (hlater : ∀ n, .drop n ∈ later → n ∈ Source.drops ps) :
    Follows (wordsParts indices ++ ps) (operandsTouches ops ++ ref.changes ++ later)
      (operandsTouches ops ++ ref.changes ++ later) := by
  refine ⟨rfl, fun n hn => ?_⟩
  rw [drops_append]
  rcases List.mem_append.1 hn with hn | hn
  · refine List.mem_append_left _ (h.drops n ?_)
    rcases List.mem_append.1 hn with hn | hn
    · exact hn
    · cases ref <;> simp [Ref.changes] at hn
  · exact List.mem_append_right _ (hlater n hn)

/-- An element that is spelled with indices has some. -/
theorem isEmpty (h : Element name indices ref ops later ts) (hne : indices ≠ []) : ops.isEmpty = false := by
  cases ops with
  | nil => exact absurd (List.length_eq_zero_iff.1 h.length.symm) hne
  | cons op ops => rfl

end Element

/-! ## Definitions and deletions -/

/-- What the resolution of words writes down, which are as many as before. -/
def WordsFollow (ws : List Word) (ops : List Operand) (ts : List Touch) : Prop :=
  Follows (wordsParts ws) (operandsTouches ops) ts ∧ ops.length = ws.length

/-- Plain targets stay plain. -/
def StayPlain (ts : List Source.Target) (ts' : List Code.Target) : Prop :=
  (∀ t ∈ ts, t.rest = false ∧ t.indices = []) → ts'.all (·.isPlain) = true

variable (src : String) (span : Span)

/-- What the resolution of the parts of a word writes down. -/
structure Source.Word.Touches (w : Source.Word) : Prop where
  body : ∀ params body, w = .lambda params body → (compileChunk src body).Notes touched fun b ts =>
    Follows body.parts b.touches ts
  indices : ∀ base is, w = .index base is → ∀ span, (compileWords src span is).Notes touched (WordsFollow is)

/-- A definition binds its function, whose body may use it. -/
theorem compileFn_touches {args : List Word} (hargs : ∀ w ∈ args, w.Touches src) :
    (compileFn src span args).Notes touched fun op ts => Follows (wordsParts args) op.touches ts := by
  unfold compileFn
  split
  · rename_i name params body
    split
    · exact .fault
    · refine .retell (P := fun op ts => ∃ op', op = .define (.local (name ++ "~")) op' ∧
        [.bind (name ++ "~")] ++ [.make op' none] = ts) ?_ fun op ts s t hop hflows => ?_
      · refine .bind (declare_touches _) fun _ ts h => ?_
        subst h
        refine .map (lambdaWith_touches span src params ((hargs _ (by simp)).body params body rfl)) fun op ts h => ?_
        exact ⟨op, rfl, congrArg _ h⟩
      · obtain ⟨op', rfl, rfl⟩ := hop
        exact ⟨_, .ofQuiet rfl (by simp [Special.touches, Ref.sets]), Scope.Flows.define hflows⟩
  · exact .fault

/-- Deletions delete what the words say. -/
theorem compileDeletions_touches : (ws : List Word) → (∀ w ∈ ws, w.Touches src) → (∀ w ∈ ws, (Part.deleted w).Steady) →
    (compileDeletions src span ws).Notes touched fun ds ts =>
    Follows (ws.map .deleted ++ wordsParts ws) (deletionsTouches ds) ts
  | [], _, _ => .pure .nil
  | w :: rest, h, hsteady => by
    have hrest := compileDeletions_touches rest (fun w hw => h w (List.mem_cons_of_mem _ hw))
      fun w hw => hsteady w (List.mem_cons_of_mem _ hw)
    have hsub : w.parts ++ (rest.map Part.deleted ++ wordsParts rest) ⊆ (w :: rest).map Part.deleted ++
      wordsParts (w :: rest) := by
      intro p hp
      simp only [List.map_cons, wordsParts, List.mem_append, List.mem_cons] at hp ⊢
      tauto
    unfold compileDeletions
    split
    · exact .pure .nil
    · rename_i name _ he
      cases he
      refine .bind (undeclare_touches _) fun b ts hd => ?_
      subst hd
      split
      · refine .map hrest fun ds ts hds => ⟨by simp [deletionsTouches, hds.same], fun n hn => ?_⟩
        rcases List.mem_append.1 hn with hn | hn
        · cases List.mem_singleton.1 hn
          exact List.mem_filterMap.2 ⟨.deleted (.bare name), by simp, rfl⟩
        · exact (hds.weaken (List.Subset.trans (List.subset_append_right _ _) hsub)).drops n hn
      · exact .fault
    · rename_i name indices _ he
      cases he
      obtain ⟨hne, hstays⟩ : indices ≠ [] ∧ Stays name indices := hsteady _ List.mem_cons_self
      have hindices := (h (.index (.bare name) indices) List.mem_cons_self).indices _ indices rfl span
      refine .retell (P := fun ds ts => ∃ ref ops ds', ds = ⟨ref, ops⟩ :: ds' ∧
        Element name indices ref ops (deletionsTouches ds') ts ∧
        ∀ n, .drop n ∈ deletionsTouches ds' → n ∈ drops (rest.map .deleted ++ wordsParts rest)) ?_ ?_
      · refine .bind (resolveRead_touches span name) fun ref ts href => ?_
        obtain ⟨rfl, hspelled⟩ := href
        refine .bind (checkWritable_notes span ref) fun _ us hw => ?_
        obtain ⟨rfl, hwritable⟩ := hw
        refine .bind hindices fun ops us hus => ?_
        obtain ⟨⟨rfl, hdrops⟩, hlength⟩ := hus
        refine .map hrest fun ds' vs hvs => ?_
        obtain ⟨rfl, hdrops'⟩ := hvs
        exact ⟨ref, ops, ds', rfl, ⟨hwritable, hspelled, hlength, hdrops, rfl⟩, hdrops'⟩
      · rintro _ ts s t ⟨ref, ops, ds', rfl, helement, hdrops⟩ hflows
        refine ⟨_, ((helement.follows hdrops).weaken hsub).of_eq ?_, helement.flows hstays hflows⟩
        simp [deletionsTouches, helement.isEmpty hne]
    · exact .fault
    · exact .fault

/-! ## Programs -/

mutual

/-- What the resolution of a straight and steady program writes down is what the resolved program does. -/
theorem compileChunk_touches : (c : Chunk) → Followed c.parts →
    (compileChunk src c).Notes touched fun b ts => Follows c.parts b.touches ts
  | ⟨ps⟩, h => by
    unfold compileChunk
    exact .map (compilePipelines_touches ps h) fun ps' ts hts => hts

/-- Programs resolve to code that touches what their parts say; the following are the cases of pipelines, forms and
words. -/
theorem compilePipelines_touches : (ps : List Source.Pipeline) → Followed (pipelinesParts ps) →
    (compilePipelines src ps).Notes touched fun ps' ts => Follows (pipelinesParts ps) (pipelinesTouches ps') ts
  | [], _ => .pure .nil
  | p :: ps, h => by
    unfold compilePipelines
    refine .bind (compilePipeline_touches p h.left) fun p' ts hts => ?_
    exact .map (compilePipelines_touches ps h.right) fun ps' us hus => hts.append hus

theorem compilePipeline_touches : (p : Source.Pipeline) → Followed p.parts →
    (compilePipeline src p).Notes touched fun p' ts => Follows p.parts p'.touches ts
  | ⟨[f], true, span⟩, h => nomatch h.head.straight.2
  | ⟨[], _, span⟩, h => nomatch h.head.straight.1
  | ⟨_ :: _ :: _, _, span⟩, h => nomatch h.head.straight.1
  | ⟨[f], false, span⟩, h => by
    unfold compilePipeline compileForms compileForms
    refine .map (P := fun fs ts => ∃ f', fs = [f'] ∧ Follows f.parts f'.touches ts) ?_ fun fs ts hfs => ?_
    · refine .bind (compileForm_touches f h.tail.left) fun f' ts hts => ?_
      refine .map (P := fun fs us => fs = [] ∧ [] = us) (.pure ⟨rfl, rfl⟩) fun fs us hus => ?_
      obtain ⟨rfl, rfl⟩ := hus
      exact ⟨f', rfl, (List.append_nil ts).symm ▸ hts⟩
    · obtain ⟨f', rfl, hts⟩ := hfs
      exact hts.weaken (List.subset_cons_of_subset _ (List.subset_append_left _ _))

theorem compileForm_touches : (f : Source.Form) → Followed f.parts →
    (compileForm src f).Notes touched fun f' ts => Follows f.parts f'.touches ts
  | ⟨temps, body, redirs, span⟩, h => by
    unfold compileForm
    refine .bind (compileRedirs_touches span redirs h.left) fun redirs' ts hts => ?_
    refine .bind (compileTemps_touches span temps h.right.left) fun temps' us hus => ?_
    exact .map (compileBody_touches span body h.right.right) fun action vs hvs => hts.append (hus.append hvs)

theorem compileRedirs_touches (span : Span) : (rs : List Source.Redir) → Followed (redirsParts rs) →
    (compileRedirs src span rs).Notes touched fun rs' ts => Follows (redirsParts rs) (redirsTouches rs') ts
  | [], _ => .pure .nil
  | ⟨fd, mode, target⟩ :: rs, h => by
    unfold compileRedirs
    refine .skip (checkFd_notes span fd) fun _ => ?_
    refine .bind (compileRedirTarget_touches span mode target h.left) fun target' ts hts => ?_
    exact .map (compileRedirs_touches span rs h.right) fun rs' us hus => hts.append hus

theorem compileRedirTarget_touches (span : Span) (mode : RedirMode) : (target : Source.RedirTarget) → Followed target.parts →
    (compileRedirTarget src span mode target).Notes touched fun target' ts => Follows target.parts target'.touches ts
  | .path word, h => by
    unfold compileRedirTarget
    exact .map (compileWord_touches span word h) fun op ts hts => hts
  | .fd n, _ => by
    unfold compileRedirTarget
    refine .skip (checkFd_notes span n) fun _ => ?_
    split
    · exact .fault
    · exact .pure .nil
  | .close, _ => .pure .nil

theorem compileTemps_touches (span : Span) : (as : List Assignment) → Followed (assignmentsParts as) →
    (compileTemps src span as).Notes touched fun as' ts => Follows (assignmentsParts as) (assignsTouches as') ts
  | [], _ => .pure .nil
  | a :: as, h => by
    unfold compileTemps
    refine .bind (checkTemporary_notes span a.targets) fun _ ts hplain => ?_
    obtain ⟨rfl, hplain⟩ := hplain
    refine .bind (compileAssign_touches span a h.left) fun a' ts hts => ?_
    refine .map (compileTemps_touches span as h.right) fun as' us hus => (hts.1.append hus).of_eq ?_
    simp only [assignsTouches, hts.2 hplain, if_true]

theorem compileAssign_touches (span : Span) : (a : Assignment) → Followed a.parts →
    (compileAssign src span a).Notes touched fun a' ts => Follows a.parts a'.touches ts ∧ StayPlain a.targets a'.targets
  | ⟨targets, values⟩, h => by
    unfold compileAssign
    refine .bind (compileWords_touches span values h.left) fun values' ts hts => ?_
    refine .skip (checkTargets_notes span targets) fun _ => ?_
    exact .map (compileTargets_touches span targets h.right) fun targets' us hus => ⟨hts.1.append hus.1, hus.2⟩

theorem compileTargets_touches (span : Span) : (ts : List Source.Target) → Followed (targetsParts ts) →
    (compileTargets src span ts).Notes touched fun ts' us => Follows (targetsParts ts) (targetsTouches ts') us ∧
    StayPlain ts ts'
  | [], _ => .pure ⟨.nil, fun _ => rfl⟩
  | ⟨name, [], rest⟩ :: ts, h => by
    unfold compileTargets
    refine .bind (resolveTarget_touches span name) fun ref us hus => ?_
    subst hus
    refine .map (compileTargets_touches span ts h.tail.right) fun ts' us hus => ⟨?_, fun hplain => ?_⟩
    · have hsets : Follows [] ref.sets ref.sets := .ofQuiet rfl ref.quiet_sets
      exact (hsets.append hus.1).weaken (List.subset_cons_of_subset _ (List.subset_append_right _ _))
    · have hrest : rest = false := (hplain _ List.mem_cons_self).1
      rw [List.all_cons, hus.2 fun t ht => hplain t (List.mem_cons_of_mem _ ht), hrest]
      rfl
  | ⟨name, i :: is, rest⟩ :: ts, h => by
    have hstays : Stays name (i :: is) := h.head.steady
    unfold compileTargets
    refine .retell (P := fun ts' us => ∃ ref ops ts'', ts' = ⟨ref, ops, rest⟩ :: ts'' ∧
      Element name (i :: is) ref ops (targetsTouches ts'') us ∧ ∀ n, .drop n ∈ targetsTouches ts'' →
      n ∈ drops (targetsParts ts)) ?_ ?_
    · refine .bind (resolveRead_touches span name) fun ref us href => ?_
      obtain ⟨rfl, hspelled⟩ := href
      refine .bind (checkWritable_notes span ref) fun _ us hw => ?_
      obtain ⟨rfl, hwritable⟩ := hw
      refine .skip (checkIndexable_notes span name ref) fun _ => ?_
      refine .bind (compileWords_touches span (i :: is) h.tail.left) fun ops us hus => ?_
      obtain ⟨⟨rfl, hdrops⟩, hlength⟩ := hus
      refine .map (compileTargets_touches span ts h.tail.right) fun ts'' vs hvs => ?_
      obtain ⟨⟨rfl, hdrops'⟩, -⟩ := hvs
      exact ⟨ref, ops, ts'', rfl, ⟨hwritable, hspelled, hlength, hdrops, rfl⟩, hdrops'⟩
    · rintro _ us s t ⟨ref, ops, ts'', rfl, helement, hdrops⟩ hflows
      refine ⟨_, ⟨((helement.follows hdrops).weaken (List.subset_cons_self _ _)).of_eq ?_, fun hplain => ?_⟩,
        helement.flows hstays hflows⟩
      · simp [targetsTouches, helement.isEmpty (List.cons_ne_nil i is)]
      · exact absurd (hplain _ List.mem_cons_self).2 (List.cons_ne_nil i is)

theorem compileBody_touches (span : Span) : (b : Body) → Followed b.parts →
    (compileBody src span b).Notes touched fun action ts => Follows b.parts action.touches ts
  | .assign a, h => by
    unfold compileBody
    exact .map (compileAssign_touches span a h) fun a' ts hts => hts.1
  | .command c, h => compileCommand_touches span c h

theorem compileCommand_touches (span : Span) : (c : Command) → Followed c.parts →
    (compileCommand src span c).Notes touched fun action ts => Follows c.parts action.touches ts
  | ⟨head, args, opts⟩, h => by
    have hargs := compileWords_touches span args h.right.right.left
    have hopts := compileOpts_touches span opts h.right.right.right
    have hwords := words_touches args h.right.right.left
    have hcall : ∀ {γ : Type} {x : Compile γ} (toHead : γ → Code.Head),
      x.Notes touched (fun a ts => Follows head.parts (toHead a).touches ts) → (do
        let a ← x
        let args ← compileWords src span args
        let opts ← compileOpts src span opts
        return .call ⟨toHead a, args, opts⟩ : Compile Code.Action).Notes touched fun action ts =>
          Follows (Command.parts ⟨head, args, opts⟩) action.touches ts := by
      intro γ x toHead hx
      refine .bind hx fun a ts hts => ?_
      refine .bind hargs fun args' us hus => ?_
      exact .map hopts fun opts' vs hvs => (hts.append (hus.1.append hvs)).weaken (List.subset_append_right _ _)
    have hdynamic := compileWord_touches span head h.right.left
    cases head with
    | bare name =>
      unfold compileCommand
      split
      · rename_i form hform
        have hhead : Followed (Command.headParts (.bare name) args) := h.left
        simp only [Command.headParts, hform] at hhead
        split
        · exact .fault
        · cases form with
          | define =>
            refine .map (compileFn_touches src span hwords) fun op ts hts => hts.weaken ?_
            exact List.Subset.trans (List.subset_append_left _ _)
              (List.subset_append_right (Command.headParts (.bare name) args) _)
          | delete =>
            have hsteady : ∀ w ∈ args, (Part.deleted w).Steady := fun w hw => (hhead.tail _ (List.mem_map_of_mem hw)).steady
            refine .map (compileDeletions_touches src span args hwords hsteady) fun ds ts hts => hts.weaken fun p hp => ?_
            simp only [Command.parts, Command.headParts, hform]
            rcases List.mem_append.1 hp with hp | hp
            · exact List.mem_append_left _ (List.mem_cons_of_mem _ hp)
            · exact List.mem_append_right _ (List.mem_append_right _ (List.mem_append_left _ hp))
          | _ => exact absurd hhead.head.straight (by simp [Part.Straight])
      · exact hcall id (resolveHead_touches span name)
    | quoted name =>
      unfold compileCommand
      exact hcall id (resolveHead_touches span name)
    | _ =>
      unfold compileCommand
      exact hcall .dynamic hdynamic

theorem compileOpts_touches (span : Span) : (os : List Opt) → Followed (optsParts os) →
    (compileOpts src span os).Notes touched fun os' ts => Follows (optsParts os) (optsTouches os') ts
  | [], _ => .pure .nil
  | ⟨name, value⟩ :: os, h => by
    unfold compileOpts
    refine .bind (compileWord_touches span value h.left) fun value' ts hts => ?_
    exact .map (compileOpts_touches span os h.right) fun os' us hus => hts.append hus

theorem compileWords_touches (span : Span) : (ws : List Word) → Followed (wordsParts ws) →
    (compileWords src span ws).Notes touched (WordsFollow ws)
  | [], _ => .pure ⟨.nil, rfl⟩
  | w :: ws, h => by
    unfold compileWords
    refine .bind (compileWord_touches span w h.left) fun op ts hts => ?_
    exact .map (compileWords_touches span ws h.right) fun ops us hus => ⟨hts.append hus.1, congrArg (· + 1) hus.2⟩

theorem compilePairs_touches (span : Span) : (ps : List (Word × Word)) → Followed (pairsParts ps) →
    (compilePairs src span ps).Notes touched fun ps' ts => Follows (pairsParts ps) (pairsTouches ps') ts
  | [], _ => .pure .nil
  | (k, v) :: ps, h => by
    unfold compilePairs
    refine .bind (compileWord_touches span k h.left) fun k' ts hts => ?_
    refine .bind (compileWord_touches span v h.right.left) fun v' us hus => ?_
    exact .map (compilePairs_touches span ps h.right.right) fun ps' vs hvs => hts.append (hus.append hvs)

theorem compileWord_touches (span : Span) : (w : Word) → Followed w.parts →
    (compileWord src span w).Notes touched fun op ts => Follows w.parts op.touches ts
  | .bare _, _ | .quoted _, _ | .wildcard _ _, _ => .pure .nil
  | .variable name explode, _ => by
    unfold compileWord
    exact .map (resolveRead_touches span name) fun ref ts href => .ofQuiet href.1 (href.1 ▸ ref.quiet_finds)
  | .index base indices, h => by
    unfold compileWord
    refine .bind (compileWord_touches span base h.left) fun base' ts hts => ?_
    exact .map (compileWords_touches span indices h.right) fun indices' us hus => hts.append hus.1
  | .list items, h => by
    unfold compileWord
    exact .map (compileWords_touches span items h) fun items' ts hts => hts.1
  | .map pairs, h => by
    unfold compileWord
    exact .map (compilePairs_touches span pairs h) fun pairs' ts hts => hts
  | .lambda params body, h => by
    obtain ⟨hstraight, hsteady⟩ := h.head.inside body rfl
    unfold compileWord
    refine .map (lambdaWith_touches span src params (compileChunk_touches body (hstraight.followed hsteady)))
      fun op ts hts => ?_
    exact .ofQuiet hts fun n hn => by simp [← hts] at hn
  | .capture body, h => by
    unfold compileWord
    exact .map (compileChunk_touches body h) fun body' ts hts => hts
  | .rescue body, h => h.head.straight.elim
  | .compound [part], h => by
    unfold compileWord
    refine .retell (compileWord_touches span part h.left) fun op ts s t hts hflows => ⟨ts, hts.weaken ?_, hflows⟩
    exact List.subset_append_left _ _
  | .compound [], _ => .pure .nil
  | .compound (p :: p' :: parts), h => by
    unfold compileWord
    exact .map (compileWords_touches span (p :: p' :: parts) h) fun parts' ts hts => hts.1

/-- The body of a lambda touches what its parts say. -/
theorem body_touches : (w : Word) → Followed w.parts → ∀ params body, w = .lambda params body →
    (compileChunk src body).Notes touched fun b ts => Follows body.parts b.touches ts
  | .lambda _ body, h => fun _ _ heq => by
    cases heq
    obtain ⟨hstraight, hsteady⟩ := h.head.inside body rfl
    exact compileChunk_touches body (hstraight.followed hsteady)
  | .bare _, _ | .quoted _, _ | .variable _ _, _ | .index _ _, _ | .list _, _ | .map _, _ | .capture _, _ | .rescue _,
      _ | .compound _, _
  | .wildcard _ _, _ => fun _ _ heq => nomatch heq

/-- The indices of a word touch what they say. -/
theorem indices_touches : (w : Word) → Followed w.parts → ∀ base is, w = .index base is → ∀ span,
    (compileWords src span is).Notes touched (WordsFollow is)
  | .index _ is, h => fun _ _ heq span => by
    cases heq
    exact compileWords_touches span is h.right
  | .bare _, _ | .quoted _, _ | .variable _ _, _ | .lambda _ _, _ | .list _, _ | .map _, _ | .capture _, _ | .rescue _, _
  | .compound _, _ | .wildcard _ _, _ => fun _ _ heq => nomatch heq

/-- Words touch what they say. -/
theorem words_touches : (ws : List Word) → Followed (wordsParts ws) → ∀ w ∈ ws, w.Touches src
  | [], _ => fun _ hw => nomatch hw
  | w :: ws, h => List.forall_mem_cons.2 ⟨⟨body_touches w h.left, indices_touches w h.left⟩, words_touches ws h.right⟩

end

/-- A straight and steady program that resolves at a top level that knows no names is covered with no name bound. -/
theorem Source.Chunk.compile_covers {chunk : Chunk} {src : String} {t : Scope} {block : Block}
    (h : chunk.Everywhere Part.Straight)
    (h' : chunk.Everywhere Part.Steady) (hcompile : chunk.compile src (.ofGlobals []) = (.ok block, t)) :
    Covers (fun _ => False) block.touches := by
  unfold Source.Chunk.compile at hcompile
  split at hcompile
  · rename_i hrun
    cases hcompile
    obtain ⟨ts, hfollows, hflows⟩ := compileChunk_touches src chunk (h.followed h') _ _ _ (.ofGlobals []) hrun
    exact (hfollows.same ▸ hflows.covers).mono fun _ hn => Bool.false_ne_true hn
  · nomatch hcompile

end DualShell
