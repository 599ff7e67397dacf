import DualShell.Proofs.Flow.Conduit
import DualShell.Proofs.Machine.Pieces

/-!
# Pipelines of two builtins

A pipeline of two builtins resolves to them where no variable holds a function of their names
(`Source.Chunk.compile_piped`). When the first one supplies bytes from the values it is given, and the second one
receives them and puts values, the program comes to its end with these values and nothing else (`World.executes_piped`),
whatever the pipe between them holds.
-/

namespace DualShell

open Compile Eval Moment

/-! ## Resolution -/

/-- A name that nobody knows resolves to nothing, and the scope stays. -/
theorem Scope.resolve_ofGlobals {names : List String} {name : String} (h : name ∉ names) :
    (Scope.ofGlobals names).resolve name = (none, .ofGlobals names) := by
  have hdeclared : ∀ f : StaticFrame, f.hasLocal name = false → f.captures = [] →
      (names.foldl StaticFrame.declare f).hasLocal name = false ∧ (names.foldl StaticFrame.declare f).captures = [] := by
    induction names with
    | nil => exact fun _ hf hc => ⟨hf, hc⟩
    | cons n ns ih =>
      intro f hf hc
      obtain ⟨hn, hns⟩ := not_or.1 (mt List.mem_cons.2 h)
      refine ih hns _ ?_ (by rw [StaticFrame.captures_declare, hc])
      unfold StaticFrame.declare
      split
      · exact hf
      · simp only [StaticFrame.hasLocal, List.contains_eq_mem, List.mem_append, List.mem_singleton,
          decide_eq_false_iff_not] at hf ⊢
        exact fun hmem => hmem.elim hf hn
  obtain ⟨hlocal, hcaptures⟩ := hdeclared .empty rfl rfl
  simp [Scope.resolve, Scope.ofGlobals, hlocal, StaticFrame.hasCapture, hcaptures, Scope.captureInner, Scope.reach]

/-- The name of a builtin at the head of a command is that builtin, unless a variable holds a function of the name. -/
theorem resolveHead_builtin (b : Builtin) (span : Span) {s : Scope} (h : s.resolve (b.name ++ "~") = (none, s)) :
    (resolveHead span b.name).run.run s = (.ok (.builtin b), s) := by
  have hname : Builtin.ofName? b.name = some b := by cases b <;> decide
  have hplain : (splitName b.name).isSome = false ∧ b.name.toList.contains '/' = false := by cases b <;> decide +kernel
  have hhead : ∀ program, b.name.toList ≠ 'e' :: ':' :: program := by
    intro program
    cases b <;> simp [Builtin.name]
  have hfree : (resolve (b.name ++ "~")).run.run s = (.ok none, s) := by
    change (Except.ok (s.resolve (b.name ++ "~")).1, (s.resolve (b.name ++ "~")).2) = _
    rw [h]
  unfold resolveHead
  split
  · next program heq => exact absurd heq (hhead program)
  · next cs =>
    simp only [hplain, Bool.false_eq_true, if_false]
    rw [Compile.run_bind hfree]
    dsimp only
    rw [hname]
    rfl

/-- Two builtins without arguments in one pipeline. -/
def Source.Chunk.piped (first second : Builtin) (whole left right : Span) : Source.Chunk :=
  ⟨[⟨[⟨[], .command ⟨.bare first.name, [], []⟩, [], left⟩, ⟨[], .command ⟨.bare second.name, [], []⟩, [], right⟩],
    false, whole⟩]⟩

/-- The form of a builtin without options. -/
def Code.Form.ofBuiltin (b : Builtin) (args : List Code.Operand) (place : Place) : Code.Form :=
  ⟨[], .call ⟨.builtin b, args, []⟩, [], place⟩

section

variable {first second : Builtin} {whole left right : Span} {names : List String}

/-- The form of a builtin resolves to it where no variable holds a function of its name, if its arguments resolve. -/
theorem compileForm_builtin (b : Builtin) (src : String) (span : Span) {s : Scope}
    (h : s.resolve (b.name ++ "~") = (none, s))
    {args : List Source.Word} {ops : List Code.Operand} (hargs : (compileWords src span args).run.run s = (.ok ops, s)) :
    (compileForm src ⟨[], .command ⟨.bare b.name, args, []⟩, [], span⟩).run.run s =
    (.ok (.ofBuiltin b ops ⟨src, span⟩), s) := by
  have hplain : SpecialForm.ofName? b.name = none := by cases b <;> decide
  have haction : (compileBody src span (.command ⟨.bare b.name, args, []⟩)).run.run s =
    (.ok (.call ⟨.builtin b, ops, []⟩), s) := by
    simp only [compileBody, compileCommand, hplain, compileOpts]
    rw [Compile.run_bind (resolveHead_builtin b span h), Compile.run_bind hargs]
    rfl
  simp only [compileForm, compileRedirs, compileTemps, pure_bind]
  rw [Compile.run_bind haction]
  rfl

/-- Two builtins piped together resolve to a pipeline of two calls. -/
theorem Source.Chunk.compile_piped (src : String) (hfirst : first.name ++ "~" ∉ names)
    (hsecond : second.name ++ "~" ∉ names) :
    ∃ text, (Source.Chunk.piped first second whole left right).compile src (.ofGlobals names) =
      (.ok ⟨[⟨[.ofBuiltin first [] ⟨src, left⟩, .ofBuiltin second [] ⟨src, right⟩], false, ⟨src, whole⟩, text⟩]⟩,
        .ofGlobals names) := by
  have hnone : ∀ span, (compileWords src span []).run.run (.ofGlobals names) = (.ok [], .ofGlobals names) := fun _ => rfl
  have hf := compileForm_builtin first src left (Scope.resolve_ofGlobals hfirst) (hnone left)
  have hs := compileForm_builtin second src right (Scope.resolve_ofGlobals hsecond) (hnone right)
  have hforms : (compileForms src [⟨[], .command ⟨.bare first.name, [], []⟩, [], left⟩,
      ⟨[], .command ⟨.bare second.name, [], []⟩, [], right⟩]).run.run (.ofGlobals names) =
      (.ok [.ofBuiltin first [] ⟨src, left⟩, .ofBuiltin second [] ⟨src, right⟩], .ofGlobals names) := by
    simp only [compileForms, pure_bind]
    rw [Compile.run_bind hf, bind_assoc, Compile.run_bind hs]
    rfl
  have hpipeline : ∃ text, (compilePipeline src ⟨[⟨[], .command ⟨.bare first.name, [], []⟩, [], left⟩,
      ⟨[], .command ⟨.bare second.name, [], []⟩, [], right⟩], false, whole⟩).run.run (.ofGlobals names) =
      (.ok ⟨[.ofBuiltin first [] ⟨src, left⟩, .ofBuiltin second [] ⟨src, right⟩], false, ⟨src, whole⟩, text⟩,
        .ofGlobals names) := by
    unfold compilePipeline
    rw [Compile.run_bind hforms]
    exact ⟨_, rfl⟩
  obtain ⟨text, hpipeline⟩ := hpipeline
  refine ⟨text, ?_⟩
  unfold Source.Chunk.compile Source.Chunk.piped
  simp only [compileChunk, compilePipelines, pure_bind]
  rw [bind_assoc, Compile.run_bind hpipeline]
  rfl

end

/-! ## Evaluation -/

/-- What comes after an evaluation: a failure goes on. -/
def Eval.after {α β : Type} (f : α → Eval β) : Except Exception α → Task (Except Exception β)
  | .ok a => (f a).run
  | .error ex => .ret (.error ex)

/-- Evaluation one part after another is one task after another. -/
theorem Eval.run_bind {α β : Type} (x : Eval α) (f : α → Eval β) : (x >>= f).run = x.run.bind (after f) :=
  congrArg (Task.bind x.run) (funext fun r => by cases r <;> rfl)

namespace Evaluator

/-- A form does what its action does, and then it closes its pipe ends. -/
def leave (wiring : Wiring) (place : Place) (o : Outcome) : Task Outcome :=
  (do wiring.close; (match o with | .ok () => pure () | .error ex => throw (ex.passing place)) : Eval Unit).run

variable (e : Evaluator)

/-- A form without temporaries and redirections is what it does, with its ends installed and closed again. -/
theorem evalForm_wired (action : Code.Action) (place : Place) (ctx : Context) (wiring : Wiring) :
    (e.evalForm ⟨[], action, [], place⟩ ctx wiring).run =
      (e.evalAction action (ctx.withDescriptors (wiring.install ctx.descriptors))).run.bind (leave wiring place) := by
  have hsplit : wiring.split [] = (.loose, wiring) := rfl
  unfold evalForm
  simp only [List.map_nil, hsplit, redirect, withTemps, List.isEmpty_nil, if_true, pure_bind]
  exact Eval.run_attempt_bind _ _

/-- A builtin without arguments that takes none. -/
theorem evalAction_builtin (b : Builtin) (ctx : Context) {args : Arguments} (h : b.schema.apply ⟨[], []⟩ = .ok args) :
    e.evalAction (.call ⟨.builtin b, [], []⟩) ctx = e.runBuiltin b args ctx := by
  change (do let args ← ofExcept (b.schema.apply ⟨[], []⟩); e.runBuiltin b args ctx) = _
  rw [h]
  rfl

/-- An outcome is what evaluation of it returns. -/
theorem run_ofOutcome (o : Outcome) : (do ofOutcome o; pure () : Eval Unit).run = .ret o := by
  cases o with
  | ok => rfl
  | error => rfl

/-- What is written for each input is supplied, in order. -/
theorem supplies_forInputs {ctx : Context} {act : Value → Eval Unit} {who : TaskId} {i : ChannelId} {o : Outlet}
    {c : Channel}
    {vs : List Value} {texts : List String} (hinput : ctx.descriptors.input? 0 = some (.channel i))
    (houtput : ctx.descriptors.output? 1 = some o)
    (hact : List.Forall₂ (fun v text => act v = ctx.writeTo e.bound 1 text) vs texts)
    (hbound : vs.length + (texts.flatMap Utf8.encode).length + 3 ≤ e.bound) (hc : c.Holds vs) :
    (e.forInputs none ctx act).Supplies who i o (fun r _ left => left = [] ∧ r = .ok ()) c (texts.flatMap Utf8.encode) := by
  have houtlet : ctx.descriptors.expectOutput 1 = .ok o := by simp [Descriptors.expectOutput, houtput]
  have hshort : ∀ text ∈ texts, (Utf8.encode text).length < e.bound := by
    intro text htext
    obtain ⟨before, after, rfl⟩ := List.append_of_mem htext
    simp only [List.flatMap_append, List.flatMap_cons, List.length_append] at hbound
    omega
  have hwritten := (List.forall₂_and_left texts vs).2 ⟨hshort, hact.flip⟩
  have htexts : texts.flatMap Utf8.encode = (texts.map Utf8.encode).flatten ++ [] := by
    rw [List.append_nil, List.flatMap_def]
  rw [htexts]
  simp only [Evaluator.forInputs, Inputs.of, hinput, pure_bind, Inputs.visit]
  refine supplies_visitStream ?_ (by omega) (by omega) hc fun c => ⟨rfl, rfl⟩
  refine List.forall₂_map_right_iff.2 (hwritten.flip.imp ?_)
  rintro v text ⟨hfits, hv⟩ Q c rest hQ
  rw [show act v = _ from hv, Context.writeTo, houtlet]
  exact supplies_bind (supplies_writeAll hfits (supplies_pure hQ))

/-- The first form is started and then the second one, and both are joined. -/
theorem evalBlock_pair (first second : Code.Form) (place : Place) (text : String) (ctx : Context) :
    (e.evalBlock ⟨[⟨[first, second], false, place, text⟩]⟩ ctx).run =
      .request (.openChannel ctx.kernel) fun c =>
        .request (.spawn (.form first ctx ⟨none, some (.channel c)⟩)) fun id =>
          .request (.spawn (.form second ctx ⟨some (.channel c), none⟩)) fun id' =>
            .request (.join id) fun o => .request (.join id') fun o' => .ret (composeOutcomes [o, o'] place) := by
  refine congrArg (Task.request _) (funext fun c => congrArg (Task.request _) (funext fun id => ?_))
  refine congrArg (Task.request _) (funext fun id' => ?_)
  exact congrArg (Task.request _) (funext fun o => congrArg (Task.request _) (funext fun o' => run_ofOutcome _))

end Evaluator

/-! ## Runs -/

/-- Given these values the builtin writes these bytes, whichever evaluator runs it and however much is accepted at a time. -/
def Builtin.Supplies (b : Builtin) (bound : Nat) (vs : List Value) (data : Bytes) : Prop :=
  ∀ (e : Evaluator) (ctx : Context) (who : TaskId) (i : ChannelId) (o : Outlet) (c : Channel), e.bound = bound →
    ctx.descriptors.input? 0 = some (.channel i) → ctx.descriptors.output? 1 = some o → c.Holds vs →
    (e.evalAction (.call ⟨.builtin b, [], []⟩) ctx).Supplies who i o (fun r _ left => left = [] ∧ r = .ok ()) c data

/-- From these bytes the builtin puts these values, whichever evaluator runs it and however many bytes each read fetches. -/
def Builtin.Yields (b : Builtin) (bound : Nat) (data : Bytes) (values : List Value) : Prop :=
  ∀ (e : Evaluator) (ctx : Context) (i : ChannelId) (o : CollectorId), e.bound = bound →
    ctx.descriptors.input? 0 = some (.channel i) → ctx.descriptors.output? 1 = some (.collector o) →
    (e.evalAction (.call ⟨.builtin b, [], []⟩) ctx).Receives i o (fun r past _ _ left => past = true ∧ left = [] ∧
      r = .ok ()) false .empty data values

section Forms

variable {b : Builtin} {e : Evaluator} {ctx : Context} {rig : Rig} {vs values : List Value} {data : Bytes} {bound : Nat}
  {err : CollectorId}

/-- As the first form of a pipeline the builtin supplies its bytes, and then it closes the pipe. -/
theorem Builtin.Supplies.form (h : b.Supplies bound vs data) (he : e.bound = bound)
    (hctx : ctx.descriptors = .standard (.channel rig.input) (.collector rig.out) (.collector err)) (who : TaskId)
    (place : Place) : ∃ (t : Task Outcome) (f : Outcome → Task Outcome),
      (e.evalForm (.ofBuiltin b [] place) ctx ⟨none, some (.channel rig.pipe)⟩).run = t.bind f ∧
        t.Supplies who rig.input (.channel rig.pipe)
          (fun a _ left => left = [] ∧ f a = .request (.closeOutlet (.channel rig.pipe)) fun _ => .ret (.ok ()))
          (.closedWith [] vs) data := by
  refine ⟨_, _, e.evalForm_wired _ _ _ _, ?_⟩
  refine Task.Supplies.mono (h e _ who rig.input (.channel rig.pipe) _ he ?_ ?_ (Channel.holds_closedWith vs))
    fun r _ left hr => ⟨hr.1, ?_⟩
  · rw [hctx]
    rfl
  · rw [hctx]
    rfl
  · rw [hr.2]
    rfl

/-- As the second form of a pipeline the builtin puts its values, and in the end it closes the pipe. -/
theorem Builtin.Yields.form (h : b.Yields bound data values) (he : e.bound = bound)
    (hctx : ctx.descriptors = .standard (.channel rig.input) (.collector rig.out) (.collector err)) (place : Place) :
    ∃ (t : Task Outcome) (g : Outcome → Task Outcome) (last : Task Outcome),
      (e.evalForm (.ofBuiltin b [] place) ctx ⟨some (.channel rig.pipe), none⟩).run = t.bind g ∧
        t.Receives rig.pipe rig.out (fun a past _ _ left => past = true ∧ left = [] ∧ g a = last) false .empty data values ∧
        ∀ (who : TaskId) (before : World) (vs : List Value) (ended : List (TaskId × Outcome)) (w : World),
        w.Collects rig before vs ended →
          last.Alone who (fun r w' => r = .ok () ∧ w'.Collects rig before vs ended) w := by
  refine ⟨_, _, Evaluator.leave ⟨some (.channel rig.pipe), none⟩ place (.ok ()), e.evalForm_wired _ _ _ _, ?_, ?_⟩
  · refine Task.Receives.mono (h e _ rig.pipe rig.out he ?_ ?_) ?_
    · rw [hctx]
      rfl
    · rw [hctx]
      rfl
    · rintro r past _ _ left ⟨hpast, hleft, rfl⟩
      exact ⟨hpast, hleft, rfl⟩
  · intro who before vs ended w hw
    exact ⟨(), _, rfl, rfl, hw.on _⟩

end Forms

namespace World

variable {w before : World} {rig : Rig} {values : List Value} {ended more : List (TaskId × Outcome)}

/-- A task that ended is joined. -/
theorem Collects.join {id : TaskId} {o : Outcome} (h : w.Collects rig before values (ended ++ (id, o) :: more))
    (hended : ∀ e ∈ ended, e.1 ≠ id) (hmore : ∀ e ∈ more, e.1 ≠ id) (who : TaskId) :
    ∃ w', w.perform who (.join id) = (some o, w') ∧ w'.Collects rig before values (ended ++ more) := by
  have hkept : ∀ l : List (TaskId × Outcome), (∀ e ∈ l, e.1 ≠ id) → l.filter (·.1 != id) = l := fun l hl =>
    List.filter_eq_self.2 fun e he => by simpa using hl e he
  have hnone : ended.find? (·.1 == id) = none := List.find?_eq_none.2 fun e he heq => hended e he (beq_iff_eq.1 heq)
  have htake : w.takeEnded id = some (o, { w with ended := ended ++ more }) := by
    simp [takeEnded, h.ended, List.find?_append, hnone, List.filter_append, hkept ended hended, hkept more hmore]
  refine ⟨{ w with ended := ended ++ more }, ?_, h.out, h.others, h.spawned, rfl⟩
  simp [perform, htake]

/-- The numbers of the channels and the collector of a pipeline that is the next thing to run on the machine. -/
def nextRig (w : World) : Rig where
  input := w.channels.size
  pipe := w.channels.size + 1
  out := w.collectors.size
  channels := Nat.ne_of_lt (Nat.lt_succ_self _)

/-- What a program left that ran on a machine: these values and no bytes, and nobody but itself. -/
structure PutsOnly (w' w : World) (values : List Value) : Prop where
  out : w'.collectors[w.nextRig.out]? = some ⟨[], values.reverse⟩
  err : w'.collectors[w.collectors.size + 1]? = some ⟨[], []⟩
  spawned : w'.spawned = []
  ended : w'.ended = w.ended

/-- What was collected is what the program put. -/
theorem Collects.putsOnly {w' : World} (h : w'.Collects w.nextRig before values w.ended)
    (herr : before.collectors[w.collectors.size + 1]? = some ⟨[], []⟩) (hspawned : before.spawned = []) :
    w'.PutsOnly w values :=
  ⟨h.out, (h.others _ (Nat.succ_ne_self _)).trans herr, h.spawned.trans hspawned, h.ended⟩

/-- What is taken from the collectors in the end. -/
theorem PutsOnly.taken {w' : World} (h : w'.PutsOnly w values) :
    ∃ w₁ w₂, w'.takeCollected w.nextRig.out = (([], values), w₁) ∧ w₁.takeCollected (w.collectors.size + 1) =
    (([], []), w₂) := by
  have hne : w.nextRig.out ≠ w.collectors.size + 1 := Nat.ne_of_lt (Nat.lt_succ_self _)
  have hleft : (w'.collectors.setIfInBounds w.nextRig.out ⟨[], []⟩)[w.collectors.size + 1]? = some ⟨[], []⟩ := by
    exact (Array.getElem?_setIfInBounds_ne hne).trans h.err
  refine ⟨{ w' with collectors := w'.collectors.setIfInBounds w.nextRig.out ⟨[], []⟩ },
    { w' with collectors :=
      (w'.collectors.setIfInBounds w.nextRig.out ⟨[], []⟩).setIfInBounds (w.collectors.size + 1) ⟨[], []⟩ }, ?_, ?_⟩
  · simp [takeCollected, h.out]
  · simp [takeCollected, hleft]

/-- The machine that holds the input of the pipeline. -/
def fed (w : World) (vs : List Value) : World :=
  { w with channels := w.channels.push (.closedWith [] vs), collectors := (w.collectors.push ⟨[], []⟩).push ⟨[], []⟩ }

/-- The surroundings of the pipeline. -/
def pipelineContext (w : World) (k : KernelId) (globals : FrameId) : Context :=
  ⟨k, globals, [], .standard (.channel w.nextRig.input) (.collector w.nextRig.out) (.collector (w.collectors.size + 1)), []⟩

/-- A program that is launched runs as one task, with collectors for its output and its errors. -/
theorem launch_fed (w : World) (e : Evaluator) (k : KernelId) (globals : FrameId) (block : Code.Block) (vs : List Value) :
    w.launch e k globals block [] vs =
      ((e.evalBlock block (w.pipelineContext k globals)).run, w.nextRig.out, w.collectors.size + 1, w.fed vs) := by
  simp [launch, addChannel, addCollector, fed, pipelineContext, nextRig]

/-- The machine on which the pipe was opened, and so many tasks were begun, of which these are yet to be taken up. -/
def piped (w : World) (kernel : Kernel) (vs : List Value) (count : Nat) (spawned : List (TaskId × Work)) : World :=
  { w.fed vs with
    channels := (w.fed vs).channels.push (.create kernel.config.pipeBuffer kernel.config.valueBuffer)
    nextTask := w.nextTask + count
    spawned }

variable {k : KernelId} {kernel : Kernel} {vs : List Value}

/-- The channel between the two forms is the next one. -/
theorem openChannel_fed (hspawned : w.spawned = []) (hk : w.kernel? k = some kernel) (vs : List Value) (who : TaskId) :
    World.perform { w.fed vs with nextTask := w.nextTask + 1 } who (.openChannel k) = (some w.nextRig.pipe,
      w.piped kernel vs 1 []) := by
  have hk' : w.kernels[k]? = some kernel := hk
  have hsize : (w.channels.push (.closedWith [] vs)).size = w.nextRig.pipe := Array.size_push _
  simp only [perform, kernel?, addChannel, fed, piped, hspawned, hsize, hk']

/-- The forms are the next tasks. -/
theorem spawn_piped (count : Nat) (spawned : List (TaskId × Work)) (who : TaskId) (work : Work) :
    (w.piped kernel vs count spawned).perform who (.spawn work) =
      (some (w.nextTask + count), w.piped kernel vs (count + 1) (spawned ++ [(w.nextTask + count, work)])) := rfl

theorem getElem?_push_push {α : Type} (xs : Array α) (a b : α) :
    ((xs.push a).push b)[xs.size]? = some a ∧ ((xs.push a).push b)[xs.size + 1]? = some b := by
  simp only [Array.getElem?_push, Array.size_push]
  simp

/-- At first nothing has been written between the forms, and the input has its values. -/
theorem conveys_piped (count : Nat) (spawned : List (TaskId × Work)) :
    (w.piped kernel vs count spawned).Conveys w.nextRig ⟨.closedWith [] vs, .empty, [], 1⟩ := by
  refine ⟨?_, _, ?_, Channel.carries_create kernel.config.pipeBuffer kernel.config.valueBuffer⟩
  · exact (getElem?_push_push w.channels _ _).1
  · exact (getElem?_push_push w.channels _ _).2

/-- At first nothing is collected. -/
theorem collects_piped (count : Nat) (spawned : List (TaskId × Work)) :
    (w.piped kernel vs count spawned).Collects w.nextRig { w.fed vs with spawned } [] w.ended :=
  ⟨(getElem?_push_push w.collectors _ _).1, fun _ _ => rfl, rfl, rfl⟩

/-- Nothing was written to the error stream. -/
theorem err_fed (w : World) (vs : List Value) : (w.fed vs).collectors[w.collectors.size + 1]? = some ⟨[], []⟩ :=
  (getElem?_push_push w.collectors _ _).2

/-- The task of the pipeline waits for the first form, and then for the second one. -/
def joining (w : World) (place : Place) : Task Outcome :=
  .request (.join (w.nextTask + 1)) fun o => .request (.join (w.nextTask + 2)) fun o' => .ret (composeOutcomes [o, o'] place)

/-- The forms are started and taken up, while the task of the pipeline waits. -/
theorem starts (hrest : w.Resting) (hk : w.kernel? k = some kernel) (e : Evaluator) (first second : Code.Form)
    (globals : FrameId) (place : Place) (text : String) (vs : List Value) :
    Goes e.evalWork
    ⟨[(w.nextTask, (e.evalBlock ⟨[⟨[first, second], false, place, text⟩]⟩ (w.pipelineContext k globals)).run)], [], false,
        { w.fed vs with nextTask := w.nextTask + 1 }⟩
      ⟨[(w.nextTask, w.joining place),
        (w.nextTask + 1, (e.form first (w.pipelineContext k globals) ⟨none, some (.channel w.nextRig.pipe)⟩).run),
        (w.nextTask + 2, (e.form second (w.pipelineContext k globals) ⟨some (.channel w.nextRig.pipe), none⟩).run)], [],
        false, w.piped kernel vs 3 []⟩ := by
  have hjoin : ∀ spawned, (w.piped kernel vs 3 spawned).perform w.nextTask (.join (w.nextTask + 1)) =
      (none, w.piped kernel vs 3 spawned) := by
    intro spawned
    have hended : ∀ e ∈ (w.piped kernel vs 3 spawned).ended, e.1 ≠ w.nextTask + 1 := fun e he =>
      Nat.ne_of_lt (Nat.lt_succ_of_lt (hrest.ended e he))
    exact join_waits hended w.nextTask
  rw [Evaluator.evalBlock_pair]
  refine .head (next_answer (openChannel_fed hrest.spawned hk vs w.nextTask)) ?_
  refine .head (next_answer (spawn_piped 1 [] w.nextTask _)) ?_
  refine .head (next_answer (spawn_piped 2 _ w.nextTask _)) ?_
  refine .head (next_wait (hjoin _)) ?_
  exact .single (next_round rfl)

/-- The task of the pipeline joins the forms when they have ended. -/
theorem joining_alone {rig : Rig} {values : List Value} {w' : World} (hended : ∀ e ∈ w.ended, e.1 < w.nextTask)
    (place : Place)
    (h : w'.Collects rig before values (w.ended ++ [(w.nextTask + 1, .ok ())] ++ [(w.nextTask + 2, .ok ())])) :
    (w.joining place).Alone w.nextTask (fun o u => o = .ok () ∧ u.Collects rig before values w.ended) w' := by
  have hfirst : ∀ e ∈ w.ended, e.1 ≠ w.nextTask + 1 := fun e he => Nat.ne_of_lt (Nat.lt_succ_of_lt (hended e he))
  have hsecond : ∀ e ∈ w.ended, e.1 ≠ w.nextTask + 2 :=
    fun e he => Nat.ne_of_lt (Nat.lt_succ_of_lt (Nat.lt_succ_of_lt (hended e he)))
  have hother : ∀ e ∈ [(w.nextTask + 2, (.ok () : Outcome))], e.1 ≠ w.nextTask + 1 := by simp
  rw [List.append_assoc] at h
  obtain ⟨w₁, hjoin, h₁⟩ := h.join hfirst hother w.nextTask
  obtain ⟨w₂, hjoin', h₂⟩ := h₁.join hsecond (List.forall_mem_nil _) w.nextTask
  rw [List.append_nil] at h₂
  exact ⟨_, w₁, hjoin, _, w₂, hjoin', rfl, h₂⟩

variable {first second : Builtin} {values : List Value} {data : Bytes} {l : Limits}

/-- The pipeline comes to its end on a machine where nothing else runs. -/
theorem goes_piped (hrest : w.Resting) (hk : w.kernel? k = some kernel) (hdepth : 0 < l.depth)
    (hsupplies : first.Supplies l.loop vs data) (hyields : second.Yields l.loop data values) (globals : FrameId)
    (left right place : Place) (text : String) :
    ∃ w' : World, Goes l.evaluator.evalWork ⟨[(w.nextTask, (l.evaluator.evalBlock
          ⟨[⟨[.ofBuiltin first [] left, .ofBuiltin second [] right], false, place, text⟩]⟩
          (w.pipelineContext k globals)).run)], [], false,
        { w.fed vs with nextTask := w.nextTask + 1 }⟩ ⟨[], [], true, w'.endTask w.nextTask (.ok ())⟩ ∧
      w'.PutsOnly w values := by
  obtain ⟨depth, hdepth⟩ := Nat.exists_eq_add_of_le' hdepth
  obtain ⟨e, he⟩ : ∃ e, e = Evaluator.atDepth l.loop depth := ⟨_, rfl⟩
  have hbound : e.bound = l.loop := by rw [he]; cases depth <;> rfl
  have hform : ∀ form ctx wiring, l.evaluator.form form ctx wiring = e.evalForm form ctx wiring := by
    intro form ctx wiring
    rw [he, Limits.evaluator, hdepth]
    rfl
  have hctx : (w.pipelineContext k globals).descriptors =
      .standard (.channel w.nextRig.input) (.collector w.nextRig.out) (.collector (w.collectors.size + 1)) := rfl
  obtain ⟨t, f, hleft, ht⟩ := hsupplies.form hbound hctx (w.nextTask + 1) left
  obtain ⟨t', g, last, hright, ht', hlast⟩ := hyields.form hbound hctx right
  have hstarts := starts hrest hk l.evaluator (.ofBuiltin first [] left) (.ofBuiltin second [] right) globals place text vs
  rw [hform, hform, hleft, hright] at hstarts
  have hfirst : ∀ e ∈ w.ended, e.1 ≠ w.nextTask + 1 := fun e he => Nat.ne_of_lt (Nat.lt_succ_of_lt (hrest.ended e he))
  obtain ⟨w₁, hconducts, hw₁⟩ :=
    conducts ht ht' (hlast _ _ _ _) (conveys_piped 3 []) (collects_piped 3 []) rfl rfl rfl hfirst
  obtain ⟨o, w', hjoins, rfl, hw'⟩ := (joining_alone hrest.ended place hw₁).finishes l.evaluator.evalWork [] [] false
  have hround := next_round_same l.evaluator.evalWork hw₁.spawned (List.cons_ne_nil (w.nextTask, w.joining place) [])
  exact ⟨w', hstarts.trans (hconducts.trans (.head hround hjoins)), hw'.putsOnly (w.err_fed vs) rfl⟩

/-- A program that, whenever it runs on its own, comes to its end with these values and writes nothing: within all
bounds that are large enough it is over with these values, and nothing else is left of it. -/
theorem executes_of_goes {chunk : Source.Chunk} {src : String} {block : Code.Block} {scope : Scope} (hrest : w.Resting)
    (hk : w.kernel? k = some kernel) (hcompile : chunk.compile src (.ofGlobals kernel.names) = (.ok block, scope))
    (hgoes : ∀ (w₀ : World) (kernel₀ : Kernel), w₀.Resting → w₀.kernel? k = some kernel₀ →
      ∃ w' : World,
      Goes l.evaluator.evalWork
      ⟨[(w₀.nextTask, (l.evaluator.evalBlock block (w₀.pipelineContext k kernel₀.globals)).run)], [], false,
          { w₀.fed vs with nextTask := w₀.nextTask + 1 }⟩ ⟨[], [], true, w'.endTask w₀.nextTask (.ok ())⟩ ∧
          w'.PutsOnly w₀ values) :
    ∃ w' enough, ∀ requests rounds, enough ≤ requests → enough ≤ rounds →
      w.executeWithin { l with requests, rounds } k chunk src [] vs = (.ran ⟨"", "", values, none⟩, w') := by
  have hnames : w.names k = kernel.names := by simp [names, hk]
  obtain ⟨w₀, hw₀⟩ : ∃ w₀, w₀ = w.modifyKernel k fun kernel' => { kernel' with names := scope.globals } := ⟨_, rfl⟩
  have hrest₀ : w₀.Resting := hw₀ ▸ ⟨hrest.spawned, hrest.ended⟩
  have hk₀ : w₀.kernel? k = some { kernel with names := scope.globals } := by
    rw [hw₀, kernel?_modifyKernel, hk]
    rfl
  have hcompiles : w.compile k chunk src = (.ok block, w₀) := by simp only [compile, hnames, hcompile, hw₀]
  obtain ⟨w₁, hends, hw₁⟩ := hgoes w₀ _ hrest₀ hk₀
  have hmain : ∀ e ∈ w₁.ended, e.1 ≠ (w₀.fed vs).nextTask := by
    rw [hw₁.ended]
    exact fun e he => Nat.ne_of_lt (hrest₀.ended e he)
  obtain ⟨enough, henough⟩ : ∃ enough, ∀ l' : Limits, l'.depth = l.depth → l'.loop = l.loop → enough ≤ l'.requests →
    enough ≤ l'.rounds →
      l'.run _ (w₀.fed vs) = (some (.ok ()), w₁) := Limits.run_of_goes hends hrest₀.spawned hw₁.spawned hmain
  obtain ⟨w₂, w₃, hout, herr⟩ := hw₁.taken
  refine ⟨w₃, enough, fun requests rounds hrequests hrounds => ?_⟩
  have hran := henough { l with requests, rounds } rfl rfl hrequests hrounds
  have hevaluator : ({ l with requests, rounds } : Limits).evaluator = l.evaluator := rfl
  unfold executeWithin runBlock
  simp only [hcompiles, hk₀, launch_fed, hevaluator, hran, hout, herr]
  rfl

/-- A program that is a pipeline of two builtins, of which the first one supplies bytes and the second one puts values
from them, comes to its end with these values, and nothing else is left of it. -/
theorem executes_piped (hrest : w.Resting) (hk : w.kernel? k = some kernel) (hfirst : first.name ++ "~" ∉ kernel.names)
    (hsecond : second.name ++ "~" ∉ kernel.names) (hdepth : 0 < l.depth)
    (hsupplies : first.Supplies l.loop vs data) (hyields : second.Yields l.loop data values) (src : String)
    (whole left right : Span) : ∃ w' enough, ∀ requests rounds, enough ≤ requests → enough ≤ rounds →
      w.executeWithin { l with requests, rounds } k (.piped first second whole left right) src [] vs =
        (.ran ⟨"", "", values, none⟩, w') := by
  obtain ⟨text, hcompile⟩ :
    ∃ text, (Source.Chunk.piped first second whole left right).compile src (.ofGlobals kernel.names) = _ :=
    Source.Chunk.compile_piped src hfirst hsecond
  exact executes_of_goes hrest hk hcompile fun w₀ kernel₀ hrest₀ hk₀ =>
    goes_piped hrest₀ hk₀ hdepth hsupplies hyields kernel₀.globals ⟨src, left⟩ ⟨src, right⟩ ⟨src, whole⟩ text

end World

end DualShell
