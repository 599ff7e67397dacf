import DualShell.Eval.Operand
import DualShell.Proofs.Eval.Builtin
import DualShell.Proofs.Scope.Mention

/-!
# Code that behaves

Where code may run is for each contract to say, by the surroundings and by what the code mentions (`Placement`). Few
steps of evaluation meet anything but values and streams: those that reach for a variable, make or enter a closure, or
start other code. If these are safe where they may be made (`Placement.Lawful`), then so is every construct over parts
that are (`Evaluator.Behaves`). Here this is said of operands.
-/

namespace DualShell

open Eval

/-- Where code may run under a contract. -/
structure Placement (D : Discipline) where
  /-- Code with the mentions may run in the surroundings. -/
  Admits : D.State → Context → List Mention → Prop
  later : ∀ {s s' ctx ms}, D.Later s s' → Admits s ctx ms → Admits s' ctx ms
  sub : ∀ {s ctx ms ns}, Admits s ctx ms → ns ⊆ ms → Admits s ctx ns
  withDescriptors : ∀ {s ctx ms}, Admits s ctx ms → ∀ ds, Admits s (ctx.withDescriptors ds) ms

variable {D : Discipline}

/-- Code with the mentions may run in these surroundings. -/
def Context.Suits (ctx : Context) (P : Placement D) (s : D.State) (ms : List Mention) : Prop := P.Admits s ctx ms

namespace Context.Suits

variable {P : Placement D} {s s' : D.State} {ctx : Context} {ms ns : List Mention}

/-- A context that suits what code mentions does so later, too. -/
theorem later (h : ctx.Suits P s ms) (hs : D.Later s s') : ctx.Suits P s' ms := P.later hs h

/-- A context that suits more mentions suits fewer. -/
theorem sub (h : ctx.Suits P s ms) (hn : ns ⊆ ms) : ctx.Suits P s ns := P.sub h hn

theorem left (h : ctx.Suits P s (ms ++ ns)) : ctx.Suits P s ms := h.sub (List.subset_append_left _ _)

theorem right (h : ctx.Suits P s (ms ++ ns)) : ctx.Suits P s ns := h.sub (List.subset_append_right _ _)

/-- The surroundings are in order, whatever the code. -/
theorem nil (h : ctx.Suits P s ms) : ctx.Suits P s [] := h.sub (List.nil_subset _)

/-- Descriptors do not matter for what a context suits. -/
theorem withDescriptors (h : ctx.Suits P s ms) (ds : Descriptors) : (ctx.withDescriptors ds).Suits P s ms :=
  P.withDescriptors h ds

end Context.Suits

/-- A value that is sound in a state. -/
abbrev Discipline.soundValue (D : Discipline) : Value → D.State → Prop := fun v s => v.Sound (D.quality s)

/-- Values that are sound in a state. -/
abbrev Discipline.soundValues (D : Discipline) : List Value → D.State → Prop := fun vs s => Value.AllSound (D.quality s) vs

/-- The steps of evaluation that meet variables, closures and other code are safe where they may be made. -/
structure Placement.Lawful (P : Placement D) : Prop where
  read : ∀ {ctx : Context} {s : D.State} (ref : Ref), ctx.Suits P s ref.mentions → (ref.read ctx).Safe D.aside D.soundValue s
  peek : ∀ {ctx : Context} {s : D.State} (ref : Ref), ctx.Suits P s ref.mentions →
    (ref.peek ctx).Safe D.aside (fun o s' => ∀ v, o = some v → v.Sound (D.quality s')) s
  write : ∀ {ctx : Context} {s : D.State} (ref : Ref) {v : Value}, ctx.Suits P s ref.changeMentions → v.Sound (D.quality s) →
    (ref.write ctx v).Safe D.aside anything s
  edit : ∀ {ctx : Context} {s : D.State} (ref : Ref) {change : Edit}, ctx.Suits P s ref.changeMentions →
    change.Sound (D.quality s) → (ref.edit ctx change).Safe D.aside anything s
  unbind : ∀ {ctx : Context} {s : D.State} (name : String), ctx.Suits P s [] →
    (ask (.unbind ctx.frame name)).Safe D.aside anything s
  close : ∀ {ctx : Context} {s : D.State} {op : Code.Lambda} (defined : Option String), ctx.Suits P s op.mentions →
    (op.close defined ctx).Safe D.aside D.soundValue s
  /-- A new frame for a call of a closure. -/
  enter : ∀ {ctx : Context} {s : D.State} {c : Closure} {vars : List (String × Value)}, ctx.Suits P s [] →
    (D.quality s).closure c →
    OptionsSound (D.quality s) vars → (ask (.activate (some c.home) vars ctx.imports)).Safe D.aside
      (fun f s' => (ctx.enter f c.captures).Suits P s' c.op.body.mentions) s
  startJob : ∀ {ctx : Context} {s : D.State} {p : Code.Pipeline}, ctx.Suits P s p.mentions →
    (ask (.startJob p ctx)).Safe D.aside anything s
  spawn : ∀ {ctx : Context} {s : D.State} {form : Code.Form} {wiring : Wiring}, ctx.Suits P s form.mentions →
    (ask (.spawn (.form form ctx wiring))).Safe D.aside anything s
  gather : ∀ {ctx : Context} {s : D.State} (side : Side) (c : ChannelId) (k : CollectorId), ctx.Suits P s [] →
    (ask (.spawn (.gather side c k ctx))).Safe D.aside anything s

/-- Evaluation of parts is safe where they may run, under a contract that makes the steps of evaluation safe. -/
structure Evaluator.Behaves (P : Placement D) (e : Evaluator) : Prop extends Placement.Lawful P where
  block : ∀ {b : Code.Block} {ctx : Context} {s : D.State}, ctx.Suits P s b.mentions →
    (e.block b ctx).Safe D.aside anything s
  form : ∀ {form : Code.Form} {ctx : Context} {wiring : Wiring} {s : D.State}, ctx.Suits P s form.mentions →
    (e.form form ctx wiring).Safe D.aside anything s
  operand : ∀ {op : Code.Operand} {ctx : Context} {s : D.State}, ctx.Suits P s op.mentions →
    (e.operand op ctx).Safe D.aside D.soundValues s
  call : ∀ {v : Value} {args : List Value} {opts : List (String × Value)} {ctx : Context} {s : D.State},
    ctx.Suits P s [] → v.Sound (D.quality s) → Value.AllSound (D.quality s) args →
    OptionsSound (D.quality s) opts → (e.call v args opts ctx).Safe D.aside anything s

/-! ## Operands -/

/-- Words that are joined give strings, and else the failure is plain. -/
theorem Quality.Plain.joinWords {q : Quality} (words : List String) (values : List Value) :
    q.Plain (DualShell.joinWords words values) := by
  induction words with
  | nil => trivial
  | cons w ws ih =>
    refine Yields.bind (Yields.mapM (P := fun _ => True) values fun v _ => ?_) fun front _ => Yields.bind ih fun _ _ =>
      trivial
    split <;> trivial

/-- What is had from a sound value by several keys is sound. -/
theorem Value.Sound.indexAll {q : Quality} {v : Value} (h : v.Sound q) (ks : List Value) :
    q.Yields (Value.Sound q) (DualShell.indexAll v ks) := by
  induction ks generalizing v with
  | nil => exact h
  | cons k ks ih => exact Quality.Yields.bind (h.index k) fun _ hv => ih hv

/-- A capture comes to sound items, if its block did not fail. -/
theorem captured_safe {s : D.State} (c : ChannelId) (k : CollectorId) (values lines : TaskId) (result : Outcome)
    (hresult : Outcome.Sound (D.quality s) result) :
    (captured c k values lines result).Safe D.aside (fun items s' => result = .ok () ∧ D.soundValues items s') s := by
  unfold captured
  refine Safe.andThen (Safe.ask_plain trivial trivial) fun _ s₁ h₁ => ?_
  refine Safe.andThen (Safe.ask_plain trivial trivial) fun _ s₂ h₂ => ?_
  refine Safe.bind (Safe.ask_plain trivial trivial) fun read s₃ h₃ hread => ?_
  refine Safe.andThen (Safe.ask_plain trivial trivial) fun _ s₄ h₄ => ?_
  refine Safe.bind (Safe.ask_plain trivial trivial) fun content s₅ h₅ hcontent => ?_
  cases result with
  | error ex =>
    have hfailed := hresult.mono (D.quality_mono (D.trans (D.trans (D.trans (D.trans h₁ h₂) h₃) h₄) h₅))
    exact Safe.bind (P := fun _ _ => False) (.throw hfailed) fun _ _ _ h => h.elim
  | ok =>
    refine Safe.andThen (Q := anything) (.pure trivial) fun _ s₆ h₆ => ?_
    refine Safe.andThen (Safe.ofOutcome (hread.mono (D.quality_mono (D.trans (D.trans h₄ h₅) h₆)))) fun _ s₇ h₇ => ?_
    exact .pure ⟨rfl, fun v hv => (hcontent v hv).mono (D.quality_mono (D.trans h₆ h₇))⟩

namespace Evaluator.Behaves

variable {P : Placement D} {e : Evaluator} (he : e.Behaves P) {ctx : Context} {s : D.State}
include he

/-- The values of operands are sound, one after another. -/
theorem all : (ops : List Code.Operand) → ∀ {s : D.State}, ctx.Suits P s (Code.operandsMentions ops) →
    (e.all ctx ops).Safe D.aside D.soundValues s
  | [], _, _ => .pure (List.forall_mem_nil _)
  | op :: ops, s, h => by
    refine (he.operand h.left).bind fun vs s' hs hvs => ?_
    refine (all ops (h.right.later hs)).bind fun ws s'' hs' hws => .pure ?_
    exact List.forall_mem_append.2 ⟨fun v hv => (hvs v hv).mono (D.quality_mono hs'), hws⟩

/-- The value of an operand that is to have one value is sound. -/
theorem single {op : Code.Operand} (h : ctx.Suits P s op.mentions) (what : String) :
    (e.single op ctx what).Safe D.aside D.soundValue s := by
  refine (he.operand h).bind fun vs s' _ hvs => ?_
  split
  · exact .pure (hvs _ (List.mem_singleton_self _))
  · exact .fail trivial

/-- Keys are sound values. -/
theorem keys : (ops : List Code.Operand) → ∀ {s : D.State}, ctx.Suits P s (Code.operandsMentions ops) →
    (e.keys ctx ops).Safe D.aside D.soundValues s
  | [], _, _ => .pure (List.forall_mem_nil _)
  | op :: ops, s, h => by
    refine (he.single h.left _).bind fun k s' hs hk => ?_
    refine (keys ops (h.right.later hs)).bind fun ks s'' hs' hks => .pure ?_
    exact List.forall_mem_cons.2 ⟨hk.mono (D.quality_mono hs'), hks⟩

/-- A part that may be absent is evaluated if it is there. -/
theorem optional {body : Option Code.Block} (h : ctx.Suits P s (Code.optionalMentions body)) :
    (e.optional body ctx).Safe D.aside anything s := by
  cases body with
  | none => exact .pure trivial
  | some body => exact he.block h

/-- A condition is evaluated as its operand. -/
theorem holds {op : Code.Operand} (h : ctx.Suits P s op.mentions) : (e.holds op ctx).Safe D.aside anything s :=
  (he.operand h).andThen fun _ _ _ => .pure trivial

/-- A compound word is evaluated part by part. -/
theorem compound : (parts : List Code.Operand) → ∀ {words : List String} {s : D.State},
    ctx.Suits P s (Code.operandsMentions parts) → (e.compound ctx words parts).Safe D.aside anything s
  | [], _, _, _ => .pure trivial
  | part :: parts, words, s, h => by
    refine (he.operand h.left).andThen fun values s' hs => ?_
    exact Safe.andThen (Safe.ofPlain (.joinWords _ _)) fun words' s'' hs' => compound parts (h.right.later (D.trans hs hs'))

/-- The keys and values of a map are sound. -/
theorem pairs : (ps : List (Code.Operand × Code.Operand)) → ∀ {s : D.State}, ctx.Suits P s (Code.pairsMentions ps) →
    (e.pairs ctx ps).Safe D.aside (fun ps s' => ∀ p ∈ ps, p.1.Sound (D.quality s') ∧ p.2.Sound (D.quality s')) s
  | [], _, _ => .pure (List.forall_mem_nil _)
  | (k, v) :: ps, s, h => by
    refine (he.single h.left.left _).bind fun key s' hs hkey => ?_
    refine (he.single (h.left.right.later hs) _).bind fun value s'' hs' hvalue => ?_
    refine (pairs ps (h.right.later (D.trans hs hs'))).bind fun ps s₃ hs'' hps =>
      .pure (List.forall_mem_cons.2 ⟨⟨?_, ?_⟩, hps⟩)
    · exact hkey.mono (D.quality_mono (D.trans hs' hs''))
    · exact hvalue.mono (D.quality_mono hs'')

/-- A capture yields what the values that its body put are: sound values, and strings. -/
theorem capture {body : Code.Block} (h : ctx.Suits P s body.mentions) :
    (e.capture body ctx).Safe D.aside D.soundValues s := by
  unfold Evaluator.capture
  refine Safe.andThen (Safe.ask_plain trivial trivial) fun c s₁ h₁ => ?_
  refine Safe.andThen (Safe.ask_plain trivial trivial) fun k s₂ h₂ => ?_
  have hhere := h.later (D.trans h₁ h₂)
  refine Safe.andThen (he.gather .values c k hhere.nil) fun values s₃ h₃ => ?_
  refine Safe.andThen (he.gather .bytes c k (hhere.later h₃).nil) fun lines s₄ h₄ => ?_
  have hbody := (hhere.later (D.trans h₃ h₄)).withDescriptors (ctx.descriptors.set 1 (some (.writing (.channel c))))
  refine (he.block hbody).attempt_outcome.bind fun result s₅ _ hresult => ?_
  exact (captured_safe c k values lines _ hresult).mono fun _ _ _ hitems => hitems.2

/-- An exception capture yields a sound failure, or that all went well. -/
theorem rescue {body : Code.Block} (h : ctx.Suits P s body.mentions) : (e.rescue body ctx).Safe D.aside D.soundValue s := by
  unfold Evaluator.rescue
  refine (he.block h).attempt.bind fun result s' hs hresult => ?_
  split
  · exact .pure .ok
  · split
    · exact .throw hresult
    · exact Safe.andThen (Safe.ask_plain trivial trivial) fun i s'' hs' =>
        .pure (.exception (Exception.Sound.mono (D.quality_mono hs') hresult))

/-- Operands yield sound values. -/
theorem evalOperand {op : Code.Operand} (h : ctx.Suits P s op.mentions) :
    (e.evalOperand op ctx).Safe D.aside D.soundValues s := by
  have one {v : Value} {s : D.State} (hv : v.Sound (D.quality s)) : D.soundValues [v] s := List.forall_mem_singleton.2 hv
  have strings (texts : List String) (s : D.State) : D.soundValues (texts.map .string) s := by
    intro v hv
    obtain ⟨text, -, rfl⟩ := List.mem_map.1 hv
    exact .string _
  cases op with
  | literal text => exact .pure (one (.string _))
  | var ref explode =>
    refine (he.read ref h).bind fun v s' _ hv => ?_
    split
    · split
      · exact .pure hv.of_list
      · exact .fail trivial
    · exact .pure (one hv)
  | index base indices =>
    refine (he.single h.left _).bind fun v s' hs hv => ?_
    refine (he.keys indices (h.right.later hs)).bind fun ks s'' hs' hks => ?_
    refine Safe.bind (Safe.ofExcept (Q := D.soundValue) ((hv.mono (D.quality_mono hs')).indexAll ks)) fun v s₃ _ hv => ?_
    exact Safe.bind (Safe.ask_plain trivial hv) fun v s₄ _ hv => .pure (one hv)
  | list items => exact (he.all items h).bind fun vs s' _ hvs => .pure (one (.list hvs))
  | map ps => exact (he.pairs ps h).bind fun ps s' _ hps => .pure (one (.mapOf hps))
  | lambda op => exact (he.close none h).bind fun v s' _ hv => .pure (one hv)
  | capture body => exact he.capture h
  | rescue body => exact (he.rescue h).bind fun v s' _ hv => .pure (one hv)
  | compound parts => exact (he.compound parts h).andThen fun words s' _ => .pure (strings _ _)
  | wildcard pattern mayMiss =>
    refine Safe.andThen (Safe.ask_plain trivial trivial) fun x s' _ => ?_
    split
    · exact .fail trivial
    · split
      · exact .fail trivial
      · exact .pure (strings _ _)

end Evaluator.Behaves

end DualShell
