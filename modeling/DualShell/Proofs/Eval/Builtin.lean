import DualShell.Eval.Builtin
import DualShell.Proofs.Eval.Stream

/-!
# Builtins keep every contract

A builtin works on the values it is given and on streams. The only other code it runs is what it calls, so it is safe
under every discipline under which calls are (`Evaluator.invoke_safe`).
-/

namespace DualShell

open Eval

variable {D : Discipline} {K : Course D}

/-! ## Arguments -/

/-- All values of some arguments have a property. -/
structure Arguments.Satisfy (P : Value → Prop) (a : Arguments) : Prop where
  positional : ∀ v ∈ a.positional, P v
  opts : ∀ o ∈ a.opts, P o.2

namespace Arguments.Satisfy

variable {P : Value → Prop} {a : Arguments}

/-- What holds of all arguments holds of a positional one. -/
theorem getElem? (h : a.Satisfy P) (i : Nat) : ∀ v, a.positional[i]? = some v → P v :=
  fun v hv => h.positional v (List.mem_of_getElem? hv)

theorem head? (h : a.Satisfy P) : ∀ v, a.positional.head? = some v → P v := fun v hv => h.positional v (List.mem_of_head? hv)

/-- A default that satisfies what the arguments satisfy may be added to them. -/
theorem addDefault (h : a.Satisfy P) {o : OptionSpec} (ho : P o.default) : (Schema.addDefault a o).Satisfy P := by
  unfold Schema.addDefault
  split
  · exact h
  · exact ⟨h.positional, List.forall_mem_append.2 ⟨h.opts, List.forall_mem_singleton.2 ho⟩⟩

/-- The defaults of builtins are strings and booleans. -/
theorem addDefaults (h : a.Satisfy P) (hstring : ∀ s, P (.string s)) (hbool : ∀ b, P (.bool b)) (command : Builtin) :
    (command.schema.opts.foldl Schema.addDefault a).Satisfy P := by
  have hdefault : ∀ o ∈ command.schema.opts, P o.default := by
    intro o ho
    cases command
    case echo => cases List.mem_singleton.1 ho; exact hstring _
    case print => cases List.mem_singleton.1 ho; exact hstring _
    case jobs => cases List.mem_singleton.1 ho; exact hbool _
    all_goals exact nomatch ho
  exact List.foldlRecOn (motive := Arguments.Satisfy P) command.schema.opts _ h fun _ ha o ho =>
    ha.addDefault (hdefault o ho)

end Arguments.Satisfy

/-- The values of options are sound. -/
abbrev OptionsSound (q : Quality) (opts : List (String × Value)) : Prop := ∀ o ∈ opts, o.2.Sound q

/-- Arguments that hold only sound values. -/
abbrev Arguments.Sound (q : Quality) (a : Arguments) : Prop := a.Satisfy (Value.Sound q)

/-- The first argument, or nothing. -/
theorem Arguments.Sound.headD {q : Quality} {a : Arguments} (h : a.Sound q) : (a.positional.head?.getD .empty).Sound q := by
  cases hv : a.positional.head? with
  | none => exact .empty
  | some v => exact h.head? v hv

/-- Arguments that pass the check of a builtin are those that were given, and defaults. -/
theorem Schema.apply_sound {q : Quality} (command : Builtin) {a : Arguments} (h : a.Sound q) :
    q.Yields (Arguments.Sound q) (command.schema.apply a) := by
  rcases command.schema.apply_cases a with hcount | ⟨text, hoption⟩ | hok
  · rw [hcount]
    trivial
  · rw [hoption]
    trivial
  · rw [hok]
    exact h.addDefaults (fun _ => .string _) (fun _ => .bool _) command

namespace Quality.Plain

variable {q : Quality}

theorem optText (a : Arguments) (name : String) : q.Plain (a.optText name) := by
  unfold Arguments.optText
  split
  · exact expectString _ _
  · trivial

/-- What joins the arguments to a text fails as the law of plain failures allows. -/
theorem joinedText (a : Arguments) : q.Plain (DualShell.joinedText a) :=
  Yields.bind (optText a "sep") fun _ _ => trivial

/-- A number of a job is read, or the failure is plain. -/
theorem parseJobId (v : Value) : q.Plain (DualShell.parseJobId v) := by
  unfold DualShell.parseJobId
  refine Yields.bind (expectString _ _) fun s _ => ?_
  dsimp only
  split
  · split <;> trivial
  · trivial

mutual

/-- Turning a value into a document fails plainly if at all. -/
theorem toJson : (v : Value) → q.Plain v.toJson
  | .string _ | .bool _ | .closure _ | .ok | .exception _ _ | .ns _ => trivial
  | .list items => by
    unfold Value.toJson
    exact Yields.bind (itemsToJson items) fun _ _ => trivial
  | .map pairs => by
    unfold Value.toJson
    exact Yields.bind (membersInto [] pairs) fun _ _ => trivial

theorem itemsToJson : (vs : List Value) → q.Plain (Value.itemsToJson vs)
  | [] => trivial
  | v :: vs => by
    unfold Value.itemsToJson
    exact Yields.bind (toJson v) fun _ _ => Yields.bind (itemsToJson vs) fun _ _ => trivial

theorem membersInto (sorted : List (String × Json)) : (ps : List (Value × Value)) → q.Plain (Value.membersInto sorted ps)
  | [] => trivial
  | (k, v) :: ps => by
    unfold Value.membersInto
    exact Yields.bind (expectString _ _) fun _ _ => Yields.bind (toJson v) fun _ _ => membersInto _ ps

end

end Quality.Plain

/-! ## Jobs -/

theorem JobInfo.toValue_sound (q : Quality) (j : JobInfo) : j.toValue.Sound q := by
  refine Value.Sound.mapOf fun p hp => ?_
  simp only [List.mem_cons, List.not_mem_nil, or_false] at hp
  rcases hp with rfl | rfl | rfl <;> exact ⟨.string _, .string _⟩

/-- What a job came to may be told by whoever may tell its parts. -/
theorem RunResult.replay_safe {r : RunResult} {s : D.State} (h : r.Sound (D.quality s)) (bound : Nat) (ctx : Context) :
    (r.replay bound ctx).Safe K anything s := by
  have hvalues : ∀ s', K.Leads s s' → (ctx.putAll r.values).Safe K anything s' :=
    fun s' hs => ctx.putAll_safe fun v hv => (h.values v hv).mono (K.quality_mono hs)
  have herrors : ∀ s', K.Leads s s' →
      (do if !r.err.isEmpty then ctx.writeTo bound 2 r.err
          ctx.putAll r.values : Eval Unit).Safe K anything s' := by
    intro s' hs
    split
    · exact .andThen (ctx.writeTo_harmless bound 2 _ s') fun _ s'' hs' => hvalues s'' (K.trans hs hs')
    · exact hvalues s' hs
  unfold RunResult.replay
  dsimp only
  split
  · exact .andThen (ctx.writeTo_harmless bound 1 _ s) fun _ s' hs => herrors s' hs
  · exact herrors s (K.refl s)

/-- Results of jobs that are sound. -/
abbrev ResultsSound (q : Quality) (results : List (JobId × RunResult)) : Prop := ∀ r ∈ results, r.2.Sound q

/-- Results of jobs that are sound for a quality are sound for a weaker one. -/
theorem ResultsSound.mono {q q' : Quality} (hq : q.Le q') {rs : List (JobId × RunResult)} (h : ResultsSound q rs) :
    ResultsSound q' rs := fun r hr => (h r hr).mono hq

/-- A job that is awaited is told with a sound result. -/
theorem awaitJob_safe (ctx : Context) (id : JobId) (s : D.State) :
    (awaitJob ctx id).Safe K (fun x s' => ∀ r, x = some r → r.Sound (D.quality s')) s := by
  refine Safe.andThen (Safe.ask_plain trivial trivial) fun found s' _ => ?_
  split
  · exact Safe.bind (Safe.ask_plain trivial trivial) fun r s'' _ hr => .pure fun r' hr' => by cases hr'; exact hr
  · exact .pure fun r hr => nomatch hr

/-- Jobs that are awaited one after another are told with sound results. -/
theorem awaitJobs_safe (ctx : Context) (ids : List JobId) (s : D.State) :
    (awaitJobs ctx ids).Safe K (fun rs s' => ResultsSound (D.quality s') rs) s := by
  induction ids generalizing s with
  | nil => exact .pure (List.forall_mem_nil _)
  | cons id ids ih =>
    refine (awaitJob_safe ctx id s).bind fun first s' _ hfirst => ?_
    refine (ih s').bind fun rest s'' hs hrest => ?_
    split
    · rename_i r
      refine .pure (List.forall_mem_cons.2 ⟨?_, hrest⟩)
      exact (hfirst r rfl).mono (K.quality_mono hs)
    · exact .pure hrest

/-- The failures that remain after results were replayed are sound. -/
theorem reap_safe (bound : Nat) (ctx : Context) {rs : List (JobId × RunResult)} {s : D.State}
    (h : ResultsSound (D.quality s) rs) :
    (reap bound ctx rs).Safe K (fun es s' => ∀ e ∈ es, Exception.Sound (D.quality s') e) s := by
  induction rs generalizing s with
  | nil => exact .pure (List.forall_mem_nil _)
  | cons r rs ih =>
    obtain ⟨id, r⟩ := r
    have hr := h (id, r) List.mem_cons_self
    refine Safe.andThen (Safe.ask_plain trivial trivial) fun _ s' hs => ?_
    have hr' := hr.mono (K.quality_mono hs)
    refine (r.replay_safe hr' bound ctx).andThen fun _ s'' hs' => ?_
    have hrs : ResultsSound (D.quality s'') rs :=
      fun r hr => (h r (List.mem_cons_of_mem _ hr)).mono (K.quality_mono (K.trans hs hs'))
    refine (ih hrs).bind fun es s₃ hs₃ hes => .pure fun e he => ?_
    rcases List.mem_append.1 he with he | he
    · exact (hr'.exception e (Option.mem_toList.1 he)).mono (K.quality_mono (K.trans hs' hs₃))
    · exact hes e he

/-- Waiting for jobs forwards what they left. -/
theorem waitFor_safe (id : Option Value) (bound : Nat) (ctx : Context) (s : D.State) :
    (waitFor id bound ctx).Safe K anything s := by
  unfold waitFor
  extract_lets rest
  have hrest : ∀ rs s', ResultsSound (D.quality s') rs → (rest rs).Safe K anything s' := by
    intro rs s' hrs
    refine (reap_safe bound ctx hrs).bind fun es s'' _ hes => ?_
    split
    · exact .pure trivial
    · exact .throw (hes _ List.mem_cons_self)
    · exact .throw (.ofCauses hes)
  split
  · refine Safe.andThen (Safe.ofPlain (.parseJobId _)) fun id s' _ => ?_
    refine (awaitJob_safe ctx id s').bind fun result s'' _ hresult => ?_
    split
    · rename_i r
      exact hrest _ s'' (List.forall_mem_singleton.2 (hresult r rfl))
    · exact Safe.bind (Safe.fail (Q := fun _ _ => False) trivial) fun _ _ _ h => h.elim
  · refine Safe.andThen (Safe.ask_plain trivial trivial) fun jobs s' _ => ?_
    exact (awaitJobs_safe ctx _ s').bind fun rs s'' _ hrs => hrest rs s'' hrs

/-! ## Inputs and outputs -/

/-- The values of documents that are put are made of them, so they are sound. -/
theorem putDocuments_safe (ctx : Context) (data : Bytes) (s : D.State) : (putDocuments ctx data).Safe K anything s := by
  unfold putDocuments
  generalize Json.readStream data = read
  obtain ⟨documents, fault⟩ := read
  dsimp only
  refine (ctx.putAll_safe fun v hv => ?_).andThen fun _ s' _ => ?_
  · obtain ⟨j, -, rfl⟩ := List.mem_map.1 hv
    exact .ofJson j
  · split
    · exact .fail trivial
    · exact .pure trivial

/-- Lines that are put are strings, which suit everybody. -/
theorem putLines_harmless (ctx : Context) (bound : Nat) (inlet : Inlet) (rounds : Nat) :
    (putLines ctx bound inlet rounds).Harmless K := by
  induction rounds with
  | zero => exact .exhausted
  | succ rounds ih =>
    refine .bind (inlet.nextLine_harmless bound) fun line => ?_
    split
    · exact .pure _
    · exact .bind (fun s => ctx.put_safe (.string _)) fun _ => ih

/-- All of the input is bytes, which suit everybody. -/
theorem allInput_harmless (ctx : Context) (bound : Nat) : (allInput ctx bound).Harmless K := by
  unfold allInput
  split
  · exact Inlet.readAll_harmless _ _
  · exact .pure _

namespace Evaluator

variable (e : Evaluator)

/-- From a state on, calls of sound values with sound arguments are safe in the given surroundings. -/
def CallsSafe (K : Course D) (e : Evaluator) (ctx : Context) (s : D.State) : Prop :=
  ∀ s', K.Leads s s' → ∀ v args opts, v.Sound (D.quality s') → Value.AllSound (D.quality s') args →
    OptionsSound (D.quality s') opts → (e.call v args opts ctx).Safe K anything s'

variable {e}

/-- What may be done with every sound value may be done with each input. -/
theorem forInputs_safe {act : Value → Eval Unit} (hact : ∀ v s, v.Sound (D.quality s) → (act v).Safe K anything s)
    {argument : Option Value} {s : D.State} (h : ∀ v, argument = some v → v.Sound (D.quality s)) (ctx : Context) :
    (e.forInputs argument ctx act).Safe K anything s := by
  refine (Inputs.of_safe h ctx).bind fun inputs s' _ hinputs => Inputs.visit_safe _ ?_ hinputs
  exact fun v s'' _ hv => (hact v s'' hv).andThen fun _ _ _ => .pure trivial

/-- What a builtin does is safe if calls are. -/
theorem runBuiltin_safe {ctx : Context} {s : D.State} (hcall : e.CallsSafe K ctx s) (command : Builtin) {args : Arguments}
    (h : args.Sound (D.quality s)) : (e.runBuiltin command args ctx).Safe K anything s := by
  cases command with
  | all => exact forInputs_safe (fun v s hv => ctx.put_safe hv) h.head? ctx
  | bool => exact ctx.put_safe (.bool _)
  | break_ => exact .throw (.ofFlow _)
  | continue_ => exact .throw (.ofFlow _)
  | each =>
    refine (Inputs.of_safe (h.getElem? 1) ctx).bind fun inputs s' hs hinputs => Inputs.visit_safe _ ?_ hinputs
    intro v s'' hs' hv
    have hs'' := K.trans hs hs'
    have hf := h.headD.mono (K.quality_mono hs'')
    have hone := hcall s'' hs'' _ [v] [] hf (List.forall_mem_singleton.2 hv) (List.forall_mem_nil _)
    exact hone.round
  | echo =>
    exact Safe.andThen (Safe.ofPlain (.joinedText _)) fun text s' _ => ctx.writeTo_harmless _ _ _ s'
  | eq => exact ctx.put_safe (.bool _)
  | fail =>
    unfold runBuiltin
    dsimp only
    split
    · rename_i hv
      exact .throw (h.head? _ hv).of_exception
    · rename_i hv
      exact .throw (.ofReason (h.head? _ hv))
    · exact .throw (.ofReason .empty)
  | fromJson =>
    unfold runBuiltin
    dsimp only
    split
    · exact .andThen (Inlet.readAll_harmless _ _ s) fun data s' _ => putDocuments_safe ctx data s'
    · exact .pure trivial
  | fromLines =>
    unfold runBuiltin
    dsimp only
    split
    · exact putLines_harmless _ _ _ _ s
    · exact .pure trivial
  | jobs =>
    have hlist : Harmless K (do ctx.putAll ((← ask (.listJobs ctx.kernel)).map JobInfo.toValue) : Eval Unit) := by
      refine .bind (.ask trivial fun _ => trivial) fun jobs s => ctx.putAll_safe fun v hv => ?_
      obtain ⟨j, -, rfl⟩ := List.mem_map.1 hv
      exact j.toValue_sound _
    unfold runBuiltin
    dsimp only
    split
    · split
      · have hcleanup : Harmless K (ask (.cleanupJobs ctx.kernel)) := .ask trivial fun _ => trivial
        exact hcleanup.bind (fun _ => hlist) s
      · exact hlist s
    · exact hlist s
  | nop => exact .pure trivial
  | not => exact ctx.put_safe (.bool _)
  | notEq => exact ctx.put_safe (.bool _)
  | print =>
    exact Safe.andThen (Safe.ofPlain (.joinedText _)) fun text s' _ => ctx.writeTo_harmless _ _ _ s'
  | put => exact ctx.putAll_safe h.positional
  | return_ => exact .throw (.ofFlow _)
  | slurp =>
    refine .andThen (allInput_harmless _ _ s) fun data s' _ => ?_
    split
    · exact ctx.put_safe (.string _)
    · exact .fail trivial
  | toJson =>
    refine forInputs_safe (fun v s hv => ?_) h.head? ctx
    exact Safe.andThen (Safe.ofPlain (.toJson v)) fun document s' _ => ctx.writeTo_harmless _ _ _ s'
  | toLines => exact forInputs_safe (fun v s _ => ctx.writeTo_harmless _ _ _ s) h.head? ctx
  | wait => exact waitFor_safe _ _ ctx s

/-- Calling a builtin with sound arguments is safe if calls are. -/
theorem invoke_safe {ctx : Context} {s : D.State} (hcall : e.CallsSafe K ctx s) (command : Builtin) {args : List Value}
    {opts : List (String × Value)} (hargs : Value.AllSound (D.quality s) args) (hopts : OptionsSound (D.quality s) opts) :
    (e.invoke command args opts ctx).Safe K anything s := by
  have hchecked : ((D.quality s).Yields (fun a => Arguments.Sound (D.quality s) a) (command.schema.apply ⟨args, opts⟩)) :=
    Schema.apply_sound command ⟨hargs, hopts⟩
  refine Safe.bind (Safe.ofExcept (Q := fun a s' => Arguments.Sound (D.quality s') a) hchecked) fun a s' hs ha => ?_
  exact runBuiltin_safe (fun s'' hs' => hcall s'' (K.trans hs hs')) command ha

end Evaluator

end DualShell
