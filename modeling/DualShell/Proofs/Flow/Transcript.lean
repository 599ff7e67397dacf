import DualShell.Proofs.Flow.Capture
import DualShell.Proofs.Flow.Redirection

/-!
# Lines through bytes

Strings that can be written as lines survive the bytes between them: the pipeline that writes and reads them puts the
same strings, whatever its pipe holds at most, and a capture of what was written has them as its values, whatever the
channel of the capture holds (`LinesFaithful`).
-/

namespace DualShell

open Eval

/-! ## The builtins -/

/-- What is written for strings is a line for each of them. -/
theorem Builtin.supplies_toLines (ss : List String) {bound : Nat} (hbound : ss.length + (written ss).length + 3 ≤ bound) :
    Builtin.toLines.Supplies bound (ss.map .string) (written ss) := by
  intro e ctx who i o c he hinput houtput hc
  subst he
  have hschema : Builtin.toLines.schema.apply ⟨[], []⟩ = .ok ⟨[], []⟩ := rfl
  have hwritten : written ss = (ss.map fun s => s ++ "\n").flatMap Utf8.encode := by rw [written, List.flatMap_map]
  rw [hwritten] at hbound ⊢
  rw [e.evalAction_builtin _ _ hschema]
  refine e.supplies_forInputs hinput houtput ?_ (by rwa [List.length_map]) hc
  rw [List.forall₂_map_left_iff, List.forall₂_map_right_iff]
  exact List.forall₂_same.2 fun s _ => rfl

/-- The lines of the bytes are put. -/
theorem Builtin.yields_fromLines {data : Bytes} {bound : Nat} (hbound : 3 * data.length < bound)
    (hlines : (linesOf [] data).length < bound) :
    Builtin.fromLines.Yields bound data ((linesOf [] data).map .string) := by
  intro e ctx i o he hinput houtput
  subst he
  have hschema : Builtin.fromLines.schema.apply ⟨[], []⟩ = .ok ⟨[], []⟩ := rfl
  rw [e.evalAction_builtin _ _ hschema]
  simp only [Evaluator.runBuiltin, hinput]
  have hputs : (putLines ctx e.bound (.channel i) e.bound).Receives i o (fun r past _ _ left => past = true ∧
    left = [] ∧ r = .ok ()) false
      .empty data ((linesOf [] data).map .string ++ []) :=
    receives_putLines houtput (by simpa [LineReader.effort, LineReader.empty]) hlines List.not_mem_nil fun _ =>
      ⟨rfl, rfl, rfl⟩
  rw [List.append_nil] at hputs
  exact hputs

/-- Lines that were written are put by `from-lines`. -/
theorem Builtin.yields_written {ss : List String} (hss : ∀ s ∈ ss, IsLine s) {bound : Nat}
    (hbound : ss.length + 3 * (written ss).length < bound) :
    Builtin.fromLines.Yields bound (written ss) (ss.map .string) := by
  have hlines := linesOf_written hss
  have hyields : Builtin.fromLines.Yields bound (written ss) ((linesOf [] (written ss)).map .string) :=
    Builtin.yields_fromLines (by omega) (by rw [hlines]; omega)
  rw [hlines] at hyields
  exact hyields

/-! ## Main result -/

/-- `to-lines | from-lines`. -/
def Source.Chunk.transcript (whole left right : Span) : Source.Chunk := .piped .toLines .fromLines whole left right

/-- `put (to-lines)`. -/
def Source.Chunk.captured (whole form innerWhole innerForm : Span) : Source.Chunk :=
  .putOutput .toLines whole form innerWhole innerForm

/-- Lines survive the bytes. -/
structure LinesFaithful : Prop where
  /-- In whatever pieces the bytes of strings written as lines are handed out, and however often a read has to wait: the
  lines that were read are the first of the strings, and they are all of them when no line is found. -/
  read : ∀ {σ : Type} (fetch : Nat → σ → Fetch × σ) (coming : σ → Bytes) (s s' : σ) (ss got : List String) (r : LineReader),
    Supplies fetch coming → (∀ s ∈ ss, IsLine s) → coming s = written ss → LineReader.Reads fetch .empty s got r s' →
    got ++ linesOf [] (r.held ++ coming s') = ss ∧ ((LineReader.line fetch r s').1 = .done none → got = ss)
  /-- `to-lines` writes a line for each string, however much of it is accepted at a time. -/
  supplied : ∀ (ss : List String) (bound : Nat), ss.length + (written ss).length + 3 ≤ bound →
    Builtin.toLines.Supplies bound (ss.map .string) (written ss)
  /-- `from-lines` puts the strings, however many bytes each of its reads fetches. -/
  received : ∀ (ss : List String) (bound : Nat), (∀ s ∈ ss, IsLine s) → ss.length + 3 * (written ss).length < bound →
    Builtin.fromLines.Yields bound (written ss) (ss.map .string)
  /-- On a machine where nothing runs and the builtins have their names, strings that can be lines come out of `to-lines
  | from-lines` in order, whatever the capacity of the kernel's pipes, within all bounds that are large enough. -/
  piped : ∀ (w : World) (k : KernelId) (kernel : Kernel) (ss : List String) (src : String) (whole left right : Span),
    w.Resting → w.kernel? k = some kernel → "to-lines~" ∉ kernel.names → "from-lines~" ∉ kernel.names →
    (∀ s ∈ ss, IsLine s) →
    ∃ loop, ∀ l : Limits, 0 < l.depth → loop ≤ l.loop → ∃ w' enough, ∀ requests rounds, enough ≤ requests → enough ≤ rounds →
      w.executeWithin { l with requests, rounds } k (.transcript whole left right) src [] (ss.map .string) =
        (.ran ⟨"", "", ss.map .string, none⟩, w')
  /-- Where such strings are the values of the input, a capture of `to-lines` comes to them, whatever its channel holds:
  the code around it goes on with them, and the readers of the capture are gone. -/
  taken : ∀ (w : World) (who : TaskId) (ctx : Context) (i : ChannelId) (c : Channel) (ss : List String)
    (inner outer : Place) (text : String)
    (l : Limits) (depth : Nat) (rest : Except Exception (List Value) → Task Outcome),
    w.Resting → ctx.descriptors.input? 0 = some (.channel i) → w.channels[i]? = some c → c.Holds (ss.map .string) →
    (∀ s ∈ ss, IsLine s) → ss.length + 3 * (written ss).length + 3 ≤ l.loop →
    ∃ w', Moment.Goes l.evaluator.evalWork
      ⟨[(who, ((Evaluator.atDepth l.loop (depth + 2)).evalOperand (.capture (.ofBuiltin .toLines [] inner outer text))
        ctx).run.bind rest)], [], false, w⟩ ⟨[(who, rest (.ok (ss.map .string)))], [], true, w'⟩
  /-- So `put (to-lines)` puts them, on a machine where nothing runs and the builtins have their names, within all
  bounds that are large enough. -/
  captured : ∀ (w : World) (k : KernelId) (kernel : Kernel) (ss : List String) (src : String)
    (whole form innerWhole innerForm : Span),
    w.Resting → w.kernel? k = some kernel → "put~" ∉ kernel.names → "to-lines~" ∉ kernel.names → (∀ s ∈ ss, IsLine s) →
    ∃ loop, ∀ l : Limits, 4 ≤ l.depth → loop ≤ l.loop → ∃ w' enough, ∀ requests rounds, enough ≤ requests → enough ≤ rounds →
      w.executeWithin { l with requests, rounds } k (.captured whole form innerWhole innerForm) src [] (ss.map .string) =
        (.ran ⟨"", "", ss.map .string, none⟩, w')

/-- Lines are read, supplied, passed on and captured as they were written. -/
theorem lines_faithful : LinesFaithful where
  read fetch coming s s' ss got r hsupplies hss hcoming hreads := by
    obtain ⟨hlines, hbegun⟩ := hreads.lines hsupplies List.not_mem_nil
    have hall : linesOf [] (LineReader.empty.held ++ coming s) = ss := by
      rw [hcoming]
      exact linesOf_written hss
    rw [hall] at hlines
    refine ⟨hlines, ?_⟩
    intro hnone
    obtain ⟨hleaves, -⟩ := LineReader.line_leaves (s := s') hsupplies hbegun
    rw [hnone] at hleaves
    rw [hleaves.1] at hlines
    exact (List.append_nil got).symm.trans hlines
  supplied _ _ hbound := Builtin.supplies_toLines _ hbound
  received _ _ hss hbound := Builtin.yields_written hss hbound
  piped w k kernel ss src whole left right hrest hk hto hfrom hss := by
    have hto' : Builtin.toLines.name ++ "~" = "to-lines~" := by decide
    have hfrom' : Builtin.fromLines.name ++ "~" = "from-lines~" := by decide
    refine ⟨ss.length + 3 * (written ss).length + 3, ?_⟩
    intro l hdepth hloop
    exact World.executes_piped hrest hk (hto' ▸ hto) (hfrom' ▸ hfrom) hdepth (Builtin.supplies_toLines _ (by omega))
      (Builtin.yields_written hss (by omega)) src whole left right
  taken w who ctx i c ss inner outer text l depth rest hrest hinput hc hholds hss hbound := by
    have hlines := linesOf_written hss
    have hblock : ∀ p, ((Evaluator.atDepth l.loop (depth + 2)).block (.ofBuiltin .toLines [] inner outer text)
        (ctx.withDescriptors (ctx.descriptors.set 1 (some (.writing (.channel p)))))).Supplies who i (.channel p)
          (fun r _ left => left = [] ∧ r = .ok ()) c (written ss) := by
      intro p
      refine Evaluator.supplies_block (Builtin.supplies_toLines _ (by omega)) ?_ ?_ hholds inner outer text who
      · simp only [Context.withDescriptors, Descriptors.input?, Descriptors.get?_set]
        exact hinput
      · simp only [Context.withDescriptors, Descriptors.output?, Descriptors.get?_set]
        rfl
    have hgather : ∀ side p k, l.evaluator.evalWork (.gather side p k ctx) = (gather side p k l.loop).run := by
      intro side p k
      unfold Limits.evaluator
      cases l.depth <;> rfl
    obtain ⟨w', hcaptures, -⟩ := Moment.captures hblock hc hrest hgather (by omega) (by rw [hlines]; omega) rest false
    rw [hlines] at hcaptures
    exact ⟨w', hcaptures⟩
  captured w k kernel ss src whole form innerWhole innerForm hrest hk hput hto hss := by
    have hto' : Builtin.toLines.name ++ "~" = "to-lines~" := by decide
    have hlines := linesOf_written hss
    refine ⟨ss.length + 3 * (written ss).length + 3, fun l hdepth hloop => ?_⟩
    obtain ⟨w', enough, hruns⟩ :=
      World.executes_putOutput hrest hk hput (hto' ▸ hto) hdepth (Builtin.supplies_toLines ss (by omega))
      (by omega) (by rw [hlines]; omega) src whole form innerWhole innerForm
    rw [hlines] at hruns
    exact ⟨w', enough, hruns⟩

end DualShell
