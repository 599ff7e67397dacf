import DualShell.Eval.Operand
import DualShell.Proofs.Twin.Stream

/-!
# Operands under other numbers

Variables go by names and cells, which have the same numbers everywhere. An operand in renamed surroundings is the twin
of the operand itself, and what it yields obeys the law, if this is so of its parts (`Evaluator.Twins`).
-/

namespace DualShell

open Eval

variable {S : Scheme} {ctx : Context}

/-- Parts of programs in renamed surroundings are twins of the parts themselves. -/
structure Evaluator.Twins (S : Scheme) (e : Evaluator) : Prop where
  block : ∀ (b : Code.Block) {ctx : Context}, ctx.Usable S.toRenaming →
    Twin S anyway (e.block b ctx) (e.block b (ctx.rename S.toRenaming))
  form : ∀ (form : Code.Form) {ctx : Context} {wiring : Wiring}, ctx.Usable S.toRenaming → wiring.Usable S.toRenaming →
    Twin S anyway (e.form form ctx wiring) (e.form form (ctx.rename S.toRenaming) (wiring.rename S.toRenaming))
  operand : ∀ (op : Code.Operand) {ctx : Context}, ctx.Usable S.toRenaming →
    Twin S (Same S.law.values) (e.operand op ctx) (e.operand op (ctx.rename S.toRenaming))
  call : ∀ {v : Value} {args : List Value} {opts : List (String × Value)} {ctx : Context}, ctx.Usable S.toRenaming →
    S.law.value v →
    S.law.values args → (∀ o ∈ opts, S.law.value o.2) →
    Twin S anyway (e.call v args opts ctx) (e.call v args opts (ctx.rename S.toRenaming))

/-! ## Variables -/

namespace Eval.Twin

/-- A request of which only the answer matters, and that not for its values. -/
theorem ask_cell (f : FrameId) (name : String) (access : Access) :
    Twin S anyway (Eval.ask (.cell f name access)) (Eval.ask (.cell f name access)) :=
  (Twin.ask (r := .cell f name access) trivial fun _ _ => rfl).mono fun _ _ h => eq_of_heq h

/-- The cell that a closure took along is the same. -/
theorem ask_taken (f : FrameId) (captures : List (String × CellId)) (name : String) (level : Nat) (access : Access) :
    Twin S anyway (Eval.ask (.taken f captures name level access)) (Eval.ask (.taken f captures name level access)) :=
  (Twin.ask (r := .taken f captures name level access) trivial fun _ _ => rfl).mono fun _ _ h => eq_of_heq h

/-- A namespace has the same members. -/
theorem ask_member (ns : Namespace) (qualifier name : String) :
    Twin S anyway (Eval.ask (.member ns qualifier name)) (Eval.ask (.member ns qualifier name)) :=
  (Twin.ask (r := .member ns qualifier name) trivial fun _ _ => rfl).mono fun _ _ h => eq_of_heq h

/-- The environment of a kernel is the same. -/
theorem ask_getEnv (k : KernelId) (name : String) : Twin S anyway (Eval.ask (.getEnv k name)) (Eval.ask (.getEnv k name)) :=
  (Twin.ask (r := .getEnv k name) trivial fun _ _ => rfl).mono fun _ _ h => eq_of_heq h

/-- The next identity is the same. -/
theorem ask_identity : Twin S anyway (Eval.ask .identity) (Eval.ask .identity) :=
  (Twin.ask (r := .identity) trivial fun _ _ => rfl).mono fun _ _ h => eq_of_heq h

/-- A cell holds the same value. -/
theorem ask_load (c : CellId) : Twin S (Same S.law.value) (Eval.ask (.load c)) (Eval.ask (.load c)) :=
  Twin.ask (r := .load c) trivial fun _ _ => rfl

end Eval.Twin

namespace Ref

/-- A variable has the same value. -/
theorem read_twin : (ref : Ref) → Twin S (Same S.law.value) (ref.read ctx) (ref.read (ctx.rename S.toRenaming))
  | .builtin name => by
    unfold read
    refine Twin.bind (.ask (r := .fixed name) trivial fun _ _ => rfl) fun x _ h => ?_
    obtain ⟨heq, hx⟩ := h
    subst heq
    split
    · exact .pure ⟨rfl, hx _ rfl⟩
    · exact .fail _
  | .env name => by
    unfold read
    exact (Twin.ask_getEnv _ _).andThen fun _ => .pure ⟨rfl, S.law.string _⟩
  | .local name => by
    unfold read cell
    exact (Twin.ask_cell _ _ _).andThen fun c => .ask_load c
  | @Ref.captured level name => by
    unfold read cell
    refine Twin.andThen ((Twin.ask_taken _ _ _ _ _).andThen fun x => ?_) fun c => .ask_load c
    split
    · exact .pure rfl
    · exact .fail _
  | .member ns name => by
    unfold read
    refine (read_twin ns).bind fun v _ h => ?_
    obtain ⟨heq, -⟩ := h
    subst heq
    split
    · refine (Twin.ask_member _ _ _).andThen fun x => ?_
      split
      · exact .ask_load _
      · exact .fail _
    · exact .fail _

/-- A variable has the same cell. -/
theorem cell_twin (ref : Ref) (access : Access) :
    Twin S anyway (ref.cell ctx access) (ref.cell (ctx.rename S.toRenaming) access) := by
  unfold cell
  cases ref with
  | builtin name | env name => exact .fail _
  | «local» name => exact .ask_cell _ _ _
  | @captured level name =>
    refine (Twin.ask_taken _ _ _ _ _).andThen fun x => ?_
    split
    · exact .pure rfl
    · exact .fail _
  | member ns name =>
    refine (read_twin ns).bind fun v _ h => ?_
    obtain ⟨heq, -⟩ := h
    subst heq
    split
    · refine (Twin.ask_member _ _ _).andThen fun x => ?_
      split
      · exact .pure rfl
      · exact .fail _
    · exact .fail _

/-- A variable gets its value alike. -/
theorem write_twin (ref : Ref) {v : Value} (hv : S.law.value v) :
    Twin S anyway (ref.write ctx v) (ref.write (ctx.rename S.toRenaming) v) := by
  unfold write
  split
  · rename_i name
    refine (Twin.plainly _).andThen fun text => ?_
    exact (Twin.ask (r := .setEnv ctx.kernel name text) trivial fun _ _ => rfl).mono fun _ _ _ => rfl
  · refine (cell_twin _ .write).andThen fun c => ?_
    exact (Twin.ask (r := .store c v) hv fun _ _ => rfl).mono fun _ _ _ => rfl

/-- What a variable holds before it is set for a while is the same. -/
theorem peek_twin (ref : Ref) :
    Twin S (Same fun o => ∀ v, o = some v → S.law.value v) (ref.peek ctx) (ref.peek (ctx.rename S.toRenaming)) := by
  unfold peek
  split
  · rename_i name
    exact Twin.ask (r := .peek ctx.frame name) trivial fun _ _ => rfl
  · refine (Twin.ask_getEnv _ _).andThen fun o => .pure ⟨rfl, fun v hv => ?_⟩
    obtain ⟨text, -, rfl⟩ := Option.map_eq_some_iff.1 hv
    exact S.law.string _
  · refine (read_twin _).bind fun v _ ⟨heq, hv⟩ => ?_
    subst heq
    exact .pure ⟨rfl, fun v' hv' => by cases hv'; exact hv⟩

/-- A variable is changed alike. -/
theorem edit_twin (ref : Ref) {change : Edit} (h : change.Lawful S.law) :
    Twin S anyway (ref.edit ctx change) (ref.edit (ctx.rename S.toRenaming) change) := by
  unfold edit
  refine (cell_twin ref .edit).andThen fun c => ?_
  refine Twin.bind (.ask (r := .edit c change) h fun _ _ => rfl) fun x _ hx => ?_
  cases hx
  exact .plainly x

end Ref

/-- A closure takes the same cells along. -/
theorem takeAlong_twin (defined : Option String) : (caps : List Capture) →
    Twin S anyway (takeAlong defined ctx caps) (takeAlong defined (ctx.rename S.toRenaming) caps)
  | [] => .pure rfl
  | ⟨name, .local⟩ :: caps => by
    unfold takeAlong
    exact (Twin.ask_cell _ _ _).andThen fun _ => (takeAlong_twin defined caps).andThen fun _ => .pure rfl
  | ⟨name, .captured⟩ :: caps => by
    unfold takeAlong
    refine (Twin.ask_taken _ _ _ _ _).andThen fun x => ?_
    split
    · exact (takeAlong_twin defined caps).andThen fun _ => .pure rfl
    · exact Twin.andThen (α := CellId) (.fail _) fun _ => (takeAlong_twin defined caps).andThen fun _ => .pure rfl

/-- The same closure is made. -/
theorem Code.Lambda.close_twin (op : Code.Lambda) (defined : Option String) :
    Twin S (Same S.law.value) (op.close defined ctx) (op.close defined (ctx.rename S.toRenaming)) := by
  unfold close
  refine (takeAlong_twin defined op.captures).andThen fun cells => ?_
  exact Twin.ask_identity.andThen fun identity => .pure ⟨rfl, S.law.closure _⟩

/-! ## Operands -/

/-- What is had from a lawful value by several keys is lawful. -/
theorem Law.indexAll {L : Law} {v : Value} (h : L.value v) (ks : List Value) :
    GivesOnly L.value (DualShell.indexAll v ks) := by
  induction ks generalizing v with
  | nil => exact .ok h
  | cons k ks ih => exact .bind (L.index h k) fun _ hv => ih hv

/-- A capture joins the tasks that take its output. -/
theorem captured_twin {c : ChannelId} {k : CollectorId} (hpipe : S.pipe c) (hown : S.Own k) (values lines : TaskId)
    {result : Outcome} (hresult : S.law.outcome result) (owed : Multiset TaskId) :
    Task.Twin S (fun owed' a a' => owed' = owed ∧ Alike S (Same S.law.values) a a') (lines ::ₘ values ::ₘ owed)
      (captured c k values lines result).run
      (captured (S.channel c) (S.collector k) (S.task values) (S.task lines) result).run := by
  unfold captured
  refine Task.Twin.asks (r := .closeOutlet (.channel c)) hpipe fun _ _ _ => ?_
  refine Task.Twin.asks (r := .join values) trivial fun _ _ _ => ?_
  refine Task.Twin.asks (r := .join lines) trivial fun _ read ⟨heq, hread, _⟩ => ?_
  subst heq
  refine Task.Twin.asks (r := .closeInlet (.channel c)) hpipe fun _ _ _ => ?_
  refine Task.Twin.asks (r := .takeCollected k) hown fun _ content ⟨heq, hcontent⟩ => ?_
  subst heq
  obtain ⟨bytes, items⟩ := content
  have howed : Multiset.erase (Multiset.erase (lines ::ₘ values ::ₘ owed) values) lines = owed := by
    rw [Multiset.erase_comm, Multiset.erase_cons_head, Multiset.erase_cons_head]
  have hitems : Twin S (Same S.law.values) (do ofOutcome result; ofOutcome read; pure items)
      (do ofOutcome result; ofOutcome read; pure items) :=
    (Twin.ofOutcome hresult).andThen fun _ => (Twin.ofOutcome hread).andThen fun _ => .pure ⟨rfl, hcontent⟩
  change Task.Twin S _ (Multiset.erase (Multiset.erase (lines ::ₘ values ::ₘ owed) values) lines) _ _
  rw [howed]
  exact hitems owed

namespace Evaluator.Twins

variable {e : Evaluator} (he : e.Twins S) (hctx : ctx.Usable S.toRenaming)
include he hctx

/-- Operands have the same values. -/
theorem all : (ops : List Code.Operand) → Twin S (Same S.law.values) (e.all ctx ops) (e.all (ctx.rename S.toRenaming) ops)
  | [] => .pure ⟨rfl, List.forall_mem_nil _⟩
  | op :: ops => by
    refine (he.operand op hctx).bind fun vs _ ⟨heq, hvs⟩ => ?_
    subst heq
    refine (all ops).bind fun ws _ ⟨heq, hws⟩ => ?_
    subst heq
    exact .pure ⟨rfl, List.forall_mem_append.2 ⟨hvs, hws⟩⟩

theorem single (op : Code.Operand) (what : String) :
    Twin S (Same S.law.value) (e.single op ctx what) (e.single op (ctx.rename S.toRenaming) what) := by
  refine (he.operand op hctx).bind fun vs _ ⟨heq, hvs⟩ => ?_
  subst heq
  split
  · exact .pure ⟨rfl, hvs _ (List.mem_singleton_self _)⟩
  · exact .fail _

theorem keys : (ops : List Code.Operand) → Twin S (Same S.law.values) (e.keys ctx ops) (e.keys (ctx.rename S.toRenaming) ops)
  | [] => .pure ⟨rfl, List.forall_mem_nil _⟩
  | op :: ops => by
    refine (he.single hctx op _).bind fun k _ ⟨heq, hk⟩ => ?_
    subst heq
    refine (keys ops).bind fun ks _ ⟨heq, hks⟩ => ?_
    subst heq
    exact .pure ⟨rfl, List.forall_mem_cons.2 ⟨hk, hks⟩⟩

theorem optional (body : Option Code.Block) :
    Twin S anyway (e.optional body ctx) (e.optional body (ctx.rename S.toRenaming)) := by
  cases body with
  | none => exact .pure rfl
  | some body => exact he.block body hctx

/-- A condition holds on both machines or on neither. -/
theorem holds (op : Code.Operand) : Twin S anyway (e.holds op ctx) (e.holds op (ctx.rename S.toRenaming)) := by
  refine (he.operand op hctx).bind fun vs _ ⟨heq, _⟩ => ?_
  subst heq
  exact .pure rfl

/-- A compound word is the same values. -/
theorem compound : (parts : List Code.Operand) → ∀ {words : List String},
    Twin S anyway (e.compound ctx words parts) (e.compound (ctx.rename S.toRenaming) words parts)
  | [], _ => .pure rfl
  | part :: parts, words => by
    refine (he.operand part hctx).bind fun values _ ⟨heq, _⟩ => ?_
    subst heq
    exact (Twin.plainly _).andThen fun words => compound parts

/-- The keys and values of a map are the same. -/
theorem pairs : (ps : List (Code.Operand × Code.Operand)) →
    Twin S (Same fun ps => ∀ p ∈ ps, S.law.value p.1 ∧ S.law.value p.2) (e.pairs ctx ps)
    (e.pairs (ctx.rename S.toRenaming) ps)
  | [] => .pure ⟨rfl, List.forall_mem_nil _⟩
  | (k, v) :: ps => by
    refine (he.single hctx k _).bind fun key _ ⟨heq, hkey⟩ => ?_
    subst heq
    refine (he.single hctx v _).bind fun value _ ⟨heq, hvalue⟩ => ?_
    subst heq
    refine (pairs ps).bind fun ps _ ⟨heq, hps⟩ => ?_
    subst heq
    exact .pure ⟨rfl, List.forall_mem_cons.2 ⟨⟨hkey, hvalue⟩, hps⟩⟩

/-- A capture runs its block beside the readers of its output. -/
theorem capture (body : Code.Block) :
    Twin S (Same S.law.values) (e.capture body ctx) (e.capture body (ctx.rename S.toRenaming)) := by
  intro owed
  unfold Evaluator.capture
  refine Task.Twin.asks (r := .openChannel ctx.kernel) trivial fun c _ ⟨heq, hpipe⟩ => ?_
  subst heq
  refine Task.Twin.asks (r := .openCollector) trivial fun k _ ⟨heq, hown⟩ => ?_
  subst heq
  refine Task.Twin.asks (r := .spawn (.gather .values c k ctx)) hctx fun values _ ⟨heq, _⟩ => ?_
  subst heq
  refine Task.Twin.asks (r := .spawn (.gather .bytes c k ctx)) hctx fun lines _ ⟨heq, _⟩ => ?_
  subst heq
  have houtput : (ctx.rename S.toRenaming).withDescriptors ((ctx.rename S.toRenaming).descriptors.set 1
      (some (.writing (.channel (S.channel c))))) =
      (ctx.withDescriptors (ctx.descriptors.set 1 (some (.writing (.channel c))))).rename S.toRenaming :=
    congrArg ctx.withDescriptors (Descriptors.set_rename ctx.descriptors 1 (some (.writing (.channel c))))
  have husable : (ctx.withDescriptors (ctx.descriptors.set 1 (some (.writing (.channel c))))).Usable S.toRenaming :=
    hctx.withDescriptors (hctx.descriptors.set 1 fun q hq => by cases hq; exact fun o ho => by cases ho; exact hpipe)
  rw [houtput]
  exact Task.Twin.attempts (he.block body husable) fun result hresult => captured_twin hpipe hown values lines hresult owed

/-- An exception capture yields the same failure, under the same identity. -/
theorem rescue (body : Code.Block) :
    Twin S (Same S.law.value) (e.rescue body ctx) (e.rescue body (ctx.rename S.toRenaming)) := by
  unfold Evaluator.rescue
  refine (he.block body hctx).attempt.bind fun r r' hr => ?_
  cases hr with
  | ok => exact .pure ⟨rfl, S.law.ok⟩
  | error h =>
    dsimp only
    split
    · exact .throw h
    · exact Twin.ask_identity.andThen fun i => .pure ⟨rfl, S.law.exception.2 h⟩

/-- Operands. -/
theorem evalOperand (op : Code.Operand) :
    Twin S (Same S.law.values) (e.evalOperand op ctx) (e.evalOperand op (ctx.rename S.toRenaming)) := by
  have one {v : Value} (hv : S.law.value v) : S.law.values [v] := List.forall_mem_singleton.2 hv
  have strings (texts : List String) : S.law.values (texts.map .string) := by
    intro v hv
    obtain ⟨text, -, rfl⟩ := List.mem_map.1 hv
    exact S.law.string _
  cases op with
  | literal text => exact .pure ⟨rfl, one (S.law.string _)⟩
  | var ref explode =>
    refine ref.read_twin.bind fun v _ ⟨heq, hv⟩ => ?_
    subst heq
    split
    · split
      · exact .pure ⟨rfl, S.law.list.1 hv⟩
      · exact .fail _
    · exact .pure ⟨rfl, one hv⟩
  | index base indices =>
    refine (he.single hctx base _).bind fun v _ ⟨heq, hv⟩ => ?_
    subst heq
    refine (he.keys hctx indices).bind fun ks _ ⟨heq, _⟩ => ?_
    subst heq
    refine (Twin.ofExcept (S.law.indexAll hv _)).bind fun v _ ⟨heq, hv⟩ => ?_
    subst heq
    refine Twin.bind (.ask (r := .adopt _) hv fun _ _ => rfl) fun v _ ⟨heq, hv⟩ => ?_
    subst heq
    exact .pure ⟨rfl, one hv⟩
  | list items =>
    refine (he.all hctx items).bind fun vs _ ⟨heq, hvs⟩ => ?_
    subst heq
    exact .pure ⟨rfl, one (S.law.list.2 hvs)⟩
  | map ps =>
    refine (he.pairs hctx ps).bind fun ps _ ⟨heq, hps⟩ => ?_
    subst heq
    exact .pure ⟨rfl, one (S.law.mapOf hps)⟩
  | lambda op =>
    refine (op.close_twin none).bind fun v _ ⟨heq, hv⟩ => ?_
    subst heq
    exact .pure ⟨rfl, one hv⟩
  | capture body => exact he.capture hctx body
  | rescue body =>
    refine (he.rescue hctx body).bind fun v _ ⟨heq, hv⟩ => ?_
    subst heq
    exact .pure ⟨rfl, one hv⟩
  | compound parts => exact (he.compound hctx parts).andThen fun words => .pure ⟨rfl, strings _⟩
  | wildcard pattern mayMiss =>
    refine Twin.bind (.ask (r := .expand pattern) trivial fun _ _ => rfl) fun x _ hx => ?_
    cases hx
    split
    · exact .fail _
    · split
      · exact .fail _
      · exact .pure ⟨rfl, strings _⟩

end Evaluator.Twins

end DualShell
