import DualShell.Proofs.Flow.Pipeline

/-!
# Captures

A capture starts a reader of the values and a reader of the lines of its block, and runs the block beside them. When the
block supplies bytes, the reader of the values has nothing to do but to wait, while the reader of the lines takes turns
with the block. So the capture comes to all lines of the bytes, whatever its channel holds (`Moment.captures`), and
leaves the collectors of others alone.
-/

namespace DualShell

open Eval Moment

variable {start : Work → Task Outcome} {who : TaskId} {rig : Rig} {w before : World} {values : List Value}
  {ended : List (TaskId × Outcome)} {s : Stage}

/-! ## The readers -/

/-- As long as the block may put a value, the reader of the values waits for one. -/
theorem Task.idles_gather (who : TaskId) (k : CollectorId) {bound : Nat} (hbound : 0 < bound) :
    (gather .values rig.pipe k bound).run.Idles who rig before ended := by
  obtain ⟨bound, rfl⟩ := Nat.exists_eq_add_of_le' hbound
  exact fun w s values hshares hs _ => hs.values_wait hshares who

/-- When no share of the channel is left, the reader of the values comes to its end. -/
theorem gather_values_ends (hs : w.Conveys rig s) (hshares : s.shares = 0) (hw : w.Collects rig before values ended)
    (who : TaskId)
    (k : CollectorId) {bound : Nat} (hbound : 2 ≤ bound) : (gather .values rig.pipe k bound).run.Alone who
      (fun o w' => o = .ok () ∧ w'.Conveys rig s ∧ w'.Collects rig before values ended) w := by
  obtain ⟨bound, rfl⟩ := Nat.exists_eq_add_of_le' hbound
  obtain ⟨channels, hend, hs'⟩ := hs.values_end hshares who
  obtain ⟨channels', hclosed, hs''⟩ := hs'.closed who
  exact ⟨_, _, hend, _, _, hclosed, rfl, hs'', (hw.on channels).on channels'⟩

/-- Once the block has ended, both readers come to their ends in one round, and all lines were put. -/
theorem Moment.gathers {valuesId linesId : TaskId} {t : Task Outcome} {more : List Value} {bound : Nat}
    (ht : t.Receives rig.pipe rig.out (fun o past _ _ left => past = true ∧ left = [] ∧ o = .ok ()) false s.reader
      s.waiting more)
    (hbound : 2 ≤ bound) (hs : w.Conveys rig s) (hshares : s.shares = 0) (hw : w.Collects rig before values ended)
    (had : List (TaskId × Task Outcome)) (moved : Bool) :
    ∃ w', Goes start ⟨[(valuesId, (gather .values rig.pipe rig.out bound).run), (linesId, t)], had, moved, w⟩ ⟨[],
      had, true, w'⟩ ∧
      w'.Collects rig before (values ++ more) (ended ++ [(valuesId, .ok ())] ++ [(linesId, .ok ())]) := by
  obtain ⟨o, w₁, hvalues, rfl, hs₁, hw₁⟩ :=
    (gather_values_ends hs hshares hw valuesId rig.out hbound).finishes start [(linesId, t)] had moved
  have hw₂ := hw₁.endTask valuesId (.ok ())
  have hs₂ : (w₁.endTask valuesId (.ok ())).Conveys rig s := ⟨hs₁.input, hs₁.pipe⟩
  have hturn := ht.turn start linesId [] had .ret hs₂ rfl (List.append_nil _) nofun (fun _ => rfl) hw₂ true
  rw [Task.bind_ret] at hturn
  cases hturn with
  | waits _ _ hopen => exact absurd hshares (Nat.ne_of_gt hopen)
  | @ends o past reader coming put more' moved' w₃ hgoes hQ _ hput hw₃ =>
    obtain ⟨-, rfl, rfl⟩ := hQ
    rw [List.append_nil] at hput
    subst hput
    exact ⟨w₃.endTask linesId (.ok ()), hvalues.trans (hgoes.tail (next_ret _)), hw₃.endTask linesId (.ok ())⟩

/-! ## The machine of a capture -/

namespace World

/-- What a capture leaves as it was: the collectors that were there, what is to be started, and which tasks have ended. -/
structure Beside (w w' : World) : Prop where
  collectors : ∀ k < w.collectors.size, w'.collectors[k]? = w.collectors[k]?
  spawned : w'.spawned = w.spawned
  ended : w'.ended = w.ended

/-- The machine on which a capture has its channel and its collector, and so many tasks were begun, of which these are
yet to be taken up. -/
def capturing (w : World) (bytes values : Nat) (count : Nat) (spawned : List (TaskId × Work)) : World :=
  { w with
    channels := w.channels.push (.create bytes values)
    collectors := w.collectors.push ⟨[], []⟩
    nextTask := w.nextTask + count
    spawned }

/-- The channel of a capture is the next one, empty, with the capacities of the kernel. -/
theorem openChannel_creates (w : World) (k : KernelId) : ∃ bytes values : Nat, ∀ who,
    w.perform who (.openChannel k) = (some w.channels.size,
      { w with channels := w.channels.push (.create bytes values) }) := by
  cases hk : w.kernel? k with
  | none => exact ⟨0, 0, fun who => by simp only [perform, hk, addChannel]⟩
  | some kernel =>
    exact ⟨kernel.config.pipeBuffer, kernel.config.valueBuffer, fun who => by simp only [perform, hk, addChannel]⟩

/-- The collector of a capture is the next one. -/
theorem openCollector_capturing (hspawned : w.spawned = []) (bytes values : Nat) (who : TaskId) :
    World.perform { w with channels := w.channels.push (.create bytes values) } who .openCollector =
      (some w.collectors.size, w.capturing bytes values 0 []) := by
  simp only [perform, addCollector, capturing, hspawned, Nat.add_zero]

/-- The readers of a capture are the next tasks. -/
theorem spawn_capturing (bytes values count : Nat) (spawned : List (TaskId × Work)) (who : TaskId) (work : Work) :
    (w.capturing bytes values count spawned).perform who (.spawn work) =
      (some (w.nextTask + count), w.capturing bytes values (count + 1) (spawned ++ [(w.nextTask + count, work)])) := rfl

/-- The numbers of a capture that is the next thing to run. -/
def captureRig (w : World) {i : ChannelId} (hi : i < w.channels.size) : Rig :=
  ⟨i, w.channels.size, w.collectors.size, Nat.ne_of_lt hi⟩

/-- The readers that a capture starts. -/
def captureReaders (w : World) (ctx : Context) : List (TaskId × Work) :=
  [(w.nextTask + 0, .gather .values w.channels.size w.collectors.size ctx),
    (w.nextTask + 1, .gather .bytes w.channels.size w.collectors.size ctx)]

variable {i : ChannelId} (hi : i < w.channels.size) {c : Channel} (bytes capacity count : Nat)
    (spawned : List (TaskId × Work))

/-- At first the channel of a capture has nothing in it, and one share. -/
theorem conveys_capturing (hc : w.channels[i]? = some c) :
    (w.capturing bytes capacity count spawned).Conveys (w.captureRig hi) ⟨c, .empty, [], 1⟩ := by
  refine ⟨?_, _, Array.getElem?_push_size, Channel.carries_create bytes capacity⟩
  show (w.channels.push _)[i]? = _
  rw [Array.getElem?_push, if_neg (Nat.ne_of_lt hi)]
  exact hc

/-- At first nothing is collected in a capture. -/
theorem collects_capturing : (w.capturing bytes capacity count spawned).Collects (w.captureRig hi)
    (w.capturing bytes capacity count spawned) [] w.ended :=
  ⟨Array.getElem?_push_size, fun _ _ => rfl, rfl, rfl⟩

/-- What was started is taken up, and the rest stays as it is. -/
theorem Collects.takeUp (h : w.Collects rig before values ended) :
    Collects { w with spawned := [] } rig { before with spawned := [] } values ended :=
  ⟨h.out, h.others, rfl, h.ended⟩

end World

/-! ## The course of a capture -/

/-- A capture whose block has ended well and whose output is closed waits for its readers and takes what they collected. -/
def awaitReaders (c : ChannelId) (k : CollectorId) (valuesId linesId : TaskId)
    (rest : Except Exception (List Value) → Task Outcome) : Task Outcome :=
  .request (.join valuesId) fun _ => .request (.join linesId) fun read => .request (.closeInlet (.channel c)) fun _ =>
    .request (.takeCollected k) fun content => (do ofOutcome read; return content.2 : Eval (List Value)).run.bind rest

/-- Once the body of a capture has ended well, its end of the channel is closed and the readers are joined. -/
theorem captured_ok (c : ChannelId) (k : CollectorId) (valuesId linesId : TaskId)
    (rest : Except Exception (List Value) → Task Outcome) : (captured c k valuesId linesId (.ok ())).run.bind rest =
      .request (.closeOutlet (.channel c)) fun _ => awaitReaders c k valuesId linesId rest := rfl

/-- A capture opens a channel and a collector, starts its readers and runs its block. -/
theorem Evaluator.run_capture (e : Evaluator) (body : Code.Block) (ctx : Context)
    (rest : Except Exception (List Value) → Task Outcome) : (e.capture body ctx).run.bind rest =
      .request (.openChannel ctx.kernel) fun c => .request .openCollector fun k =>
        .request (.spawn (.gather .values c k ctx)) fun valuesId => .request (.spawn (.gather .bytes c k ctx)) fun linesId =>
          (e.block body (ctx.withDescriptors (ctx.descriptors.set 1 (some (.writing (.channel c)))))).run.bind
            fun r => (captured c k valuesId linesId r).run.bind rest := by
  refine congrArg (Task.request _) (funext fun c => congrArg (Task.request _) (funext fun k => ?_))
  refine congrArg (Task.request _) (funext fun valuesId => congrArg (Task.request _) (funext fun linesId => ?_))
  exact (congrArg (Task.bind · rest) (run_attempt_bind _ _)).trans (Task.bind_assoc _ _ _)

namespace Moment

section Readers

variable {α : Type} {valuesId linesId : TaskId} {valuesWork linesWork : Work} {t : Task α} {f : α → Task Outcome}
  {rest : Outcome → Task Outcome} {data : Bytes} {more : List Value} {bound : Nat}
  {Q : Outcome → Bool → LineReader → Bytes → List Value → Prop}

variable (start) in
/-- A round begins in which the readers are taken up. -/
theorem next_round_readers (hspawned : w.spawned = [(valuesId, valuesWork), (linesId, linesWork)])
    (task : TaskId × Task Outcome) :
    next start ⟨[], [task], true, w⟩ =
      some ⟨[task, (valuesId, start valuesWork), (linesId, start linesWork)], [], false, { w with spawned := [] }⟩ := by
  have hadopt : Pool.adopt start ⟨[task], w⟩ =
      ⟨[task, (valuesId, start valuesWork), (linesId, start linesWork)], { w with spawned := [] }⟩ := by
    simp only [Pool.adopt, hspawned, List.map_cons, List.map_nil, List.singleton_append]
  rw [next_round (congrArg Pool.tasks hadopt), hadopt]

variable (start who) in
/-- When its block has ended well, a capture closes its output and waits for the reader of the values. -/
theorem closes {o : Task Outcome}
    (ho : o = .request (.closeOutlet (.channel rig.pipe)) fun _ => .request (.join valuesId) rest)
    (hs : w.Conveys rig s) (hshares : s.shares = 1) (hw : w.Collects rig before values ended)
    (hended : ∀ e ∈ ended, e.1 ≠ valuesId) (due : List (TaskId × Task Outcome)) (moved : Bool) :
    ∃ w', Goes start ⟨(who, o) :: due, [], moved, w⟩ ⟨due, [(who, .request (.join valuesId) rest)], true, w'⟩ ∧
      w'.Conveys rig { s with shares := 0 } ∧ w'.Collects rig before values ended := by
  obtain ⟨channels, hperform, hs'⟩ := hs.closeOutlet hshares who
  have hjoin : World.perform { w with channels } who (.join valuesId) = (none, { w with channels }) :=
    World.join_waits (by rw [show ({ w with channels } : World).ended = ended from hw.ended]; exact hended) who
  rw [ho]
  exact ⟨_, .head (next_answer hperform) (.single (next_wait hjoin)), hs', hw.on channels⟩

/-- The block supplies its bytes, and then the capture closes its output and waits for its readers, which have taken a
beginning of it. They are taken up after the first turn of the block, which has come to its end by then or waits because
the channel is full. -/
theorem supplied (ht : t.Supplies who rig.input (.channel rig.pipe)
      (fun a _ left => left = [] ∧ f a = .request (.closeOutlet (.channel rig.pipe)) fun _ =>
        .request (.join valuesId) rest) s.input data)
    (ht' : (start linesWork).Receives rig.pipe rig.out Q false s.reader data more)
    (hpast : ∀ o past r coming left, Q o past r coming left → past = true)
    (hvalues : start valuesWork = (gather .values rig.pipe rig.out bound).run) (hbound : 0 < bound)
    (hs : w.Conveys rig s) (hwaiting : s.waiting = []) (hshares : s.shares = 1) (hw : w.Collects rig before values ended)
    (hspawned : before.spawned = [(valuesId, valuesWork), (linesId, linesWork)]) (hended : ∀ e ∈ ended, e.1 ≠ valuesId) :
    ∃ s' put more' t' moved w', Goes start ⟨[(who, t.bind f)], [], true, w⟩
        ⟨[(valuesId, start valuesWork), (linesId, t')], [(who, .request (.join valuesId) rest)], moved, w'⟩ ∧
      t'.Receives rig.pipe rig.out Q false s'.reader s'.waiting more' ∧ put ++ more' = more ∧ s'.shares = 0 ∧
      w'.Conveys rig s' ∧ w'.Collects rig { before with spawned := [] } (values ++ put) ended := by
  rcases ht.turn hs rfl hw f [] [] true with
    ⟨t₁, c', waiting, data', moved', w₁, hgoes, hmoved, ht₁, -, hall, hs₁, hw₁⟩ |
    ⟨a, c', waiting, left, moved', w₁, hgoes, ⟨rfl, hf⟩, hall, hs₁, hw₁⟩
  · -- The channel is full, and the rounds go on until the block has come to its end.
    obtain rfl := hmoved rfl
    rw [hwaiting, List.nil_append] at hall
    have hround := next_round_readers start (hw₁.spawned.trans hspawned) (who, t₁.bind f)
    have hidle : ∀ t ∈ [] ++ [(valuesId, start valuesWork)], t.2.Idles t.1 rig { before with spawned := [] } ended := by
      intro t ht
      cases List.mem_singleton.1 ht
      rw [hvalues]
      exact Task.idles_gather valuesId rig.out hbound
    have hs₂ : World.Conveys { w₁ with spawned := [] } rig { s with input := c', waiting } := ⟨hs₁.input, hs₁.pipe⟩
    obtain ⟨a, left, s', put, more', t', moved, w₂, hrounds, ⟨rfl, hf⟩, ht₂, hput, hshares', hs', hw₂⟩ :=
      conveys start linesId f .ret hidle ht₁ (hall.symm ▸ ht') hpast hs₂ hw₁.takeUp rfl hshares
    rw [Task.bind_ret, Task.bind_ret] at hrounds
    rw [List.append_nil] at ht₂
    obtain ⟨w₃, hcloses, hs₃, hw₃⟩ := closes start who hf hs' hshares' hw₂ hended _ moved
    exact ⟨{ s' with shares := 0 }, put, more', t', true, w₃, hgoes.trans (.head hround (hrounds.trans hcloses)), ht₂,
      hput, rfl, hs₃, hw₃⟩
  · -- All was supplied at once, and the capture waits for its readers when they are taken up.
    rw [hwaiting, List.nil_append, List.append_nil] at hall
    obtain ⟨w₂, hcloses, hs₂, hw₂⟩ := closes start who hf hs₁ hshares hw₁ hended [] moved'
    have hround := next_round_readers start (hw₂.spawned.trans hspawned) (who, .request (.join valuesId) rest)
    have hjoin : World.perform { w₂ with spawned := [] } who (.join valuesId) = (none, { w₂ with spawned := [] }) :=
      World.join_waits (by rw [show ({ w₂ with spawned := [] } : World).ended = ended from hw₂.ended]; exact hended) who
    refine ⟨{ s with input := c', waiting, shares := 0 }, [], more, start linesWork, false, { w₂ with spawned := [] },
      hgoes.trans (hcloses.trans (.head hround (.single (next_wait hjoin)))), hall.symm ▸ ht', rfl, rfl,
      ⟨hs₂.input, hs₂.pipe⟩, ?_⟩
    rw [List.append_nil]
    exact hw₂.takeUp

variable (start) in
/-- When its readers have ended, a capture takes what they collected, and goes on with the items. -/
theorem takes {rest : Except Exception (List Value) → Task Outcome} (hended : ∀ e ∈ ended, e.1 ≠ valuesId ∧ e.1 ≠ linesId)
    (hne : linesId ≠ valuesId) (hw : w.Collects rig before values (ended ++ [(valuesId, .ok ())] ++ [(linesId, .ok ())]))
    (due had : List (TaskId × Task Outcome)) (moved : Bool) :
    ∃ w', Goes start ⟨(who, awaitReaders rig.pipe rig.out valuesId linesId rest) :: due, had, moved, w⟩
        ⟨(who, rest (.ok values)) :: due, had, true, w'⟩ ∧
      (∀ k, k ≠ rig.out → w'.collectors[k]? = before.collectors[k]?) ∧ w'.spawned = before.spawned ∧ w'.ended = ended := by
  rw [List.append_assoc] at hw
  obtain ⟨w₁, hvalues, hw₁⟩ := hw.join (fun e he => (hended e he).1) (by simpa using hne) who
  obtain ⟨w₂, hlines, hw₂⟩ := hw₁.join (fun e he => (hended e he).2) (List.forall_mem_nil _) who
  rw [List.append_nil] at hw₂
  obtain ⟨channels, hclose⟩ : ∃ channels, w₂.perform who (.closeInlet (.channel rig.pipe)) =
    (some (), { w₂ with channels }) := ⟨_, rfl⟩
  have hw₃ := hw₂.on channels
  have htake : World.perform { w₂ with channels } who (.takeCollected rig.out) =
      (some ([], values), { w₂ with channels, collectors := w₂.collectors.setIfInBounds rig.out ⟨[], []⟩ }) := by
    simp [World.perform, World.takeCollected, hw₂.out]
  refine ⟨_, .head (next_answer hvalues)
    (.head (next_answer hlines) (.head (next_answer hclose) (.single (next_answer htake)))), ?_,
    hw₂.spawned, hw₂.ended⟩
  intro k hk
  exact (Array.getElem?_setIfInBounds_ne (Ne.symm hk)).trans (hw₂.others k hk)

end Readers

variable (start who) in
/-- A capture opens its channel and its collector, starts its readers, and then runs its block. -/
theorem starts (hspawned : w.spawned = []) (e : Evaluator) (body : Code.Block) (ctx : Context)
    (rest : Except Exception (List Value) → Task Outcome) (moved : Bool) :
    ∃ bytes capacity, Goes start ⟨[(who, (e.capture body ctx).run.bind rest)], [], moved, w⟩
      ⟨[(who, (e.block body
        (ctx.withDescriptors (ctx.descriptors.set 1 (some (.writing (.channel w.channels.size)))))).run.bind fun r =>
          (captured w.channels.size w.collectors.size (w.nextTask + 0) (w.nextTask + 1) r).run.bind rest)], [], true,
        w.capturing bytes capacity 2 (w.captureReaders ctx)⟩ := by
  obtain ⟨bytes, capacity, hopen⟩ := w.openChannel_creates ctx.kernel
  refine ⟨bytes, capacity, ?_⟩
  rw [e.run_capture]
  refine .head (next_answer (hopen who)) ?_
  refine .head (next_answer (World.openCollector_capturing hspawned bytes capacity who)) ?_
  refine .head (next_answer (World.spawn_capturing bytes capacity 0 [] who _)) ?_
  exact .single (next_answer (World.spawn_capturing bytes capacity 1 _ who _))

/-- A capture whose block supplies bytes comes to the lines of the bytes. -/
theorem captures {e : Evaluator} {body : Code.Block} {ctx : Context} {i : ChannelId} {c : Channel} {data : Bytes}
    {bound : Nat}
    (hsupplies : ∀ p,
      (e.block body (ctx.withDescriptors (ctx.descriptors.set 1 (some (.writing (.channel p)))))).Supplies who i (.channel p)
      (fun r _ left => left = [] ∧ r = .ok ()) c data)
    (hc : w.channels[i]? = some c) (hrest : w.Resting)
    (hstart : ∀ side p k, start (.gather side p k ctx) = (gather side p k bound).run)
    (hbound : 3 * data.length + 1 < bound) (hlines : (linesOf [] data).length < bound)
    (rest : Except Exception (List Value) → Task Outcome) (moved : Bool) :
    ∃ w', Goes start ⟨[(who, (e.capture body ctx).run.bind rest)], [], moved, w⟩
        ⟨[(who, rest (.ok ((linesOf [] data).map .string)))], [], true, w'⟩ ∧ w.Beside w' := by
  have hi : i < w.channels.size := (Array.getElem?_eq_some_iff.1 hc).1
  have hnew : ∀ e ∈ w.ended, e.1 ≠ w.nextTask + 0 ∧ e.1 ≠ w.nextTask + 1 := fun e he =>
    ⟨Nat.ne_of_lt (hrest.ended e he), Nat.ne_of_lt (Nat.lt_succ_of_lt (hrest.ended e he))⟩
  let rig := w.captureRig hi
  obtain ⟨bytes, capacity, hstarts⟩ := starts start who hrest.spawned e body ctx rest moved
  -- The readers are taken up, and take what the block supplies until it has ended well.
  have ht : (e.block body (ctx.withDescriptors (ctx.descriptors.set 1 (some (.writing (.channel rig.pipe)))))).Supplies
      who rig.input (.channel rig.pipe) (fun r _ left => left = [] ∧
        (captured rig.pipe rig.out (w.nextTask + 0) (w.nextTask + 1) r).run.bind rest =
          .request (.closeOutlet (.channel rig.pipe)) fun _ =>
            awaitReaders rig.pipe rig.out (w.nextTask + 0) (w.nextTask + 1) rest) c data := by
    refine Task.Supplies.mono (hsupplies rig.pipe) fun r _ left hdone => ⟨hdone.1, ?_⟩
    rw [hdone.2]
    exact captured_ok ..
  have hreads : (start (.gather .bytes rig.pipe rig.out ctx)).Receives rig.pipe rig.out
      (fun o past _ _ left => past = true ∧ left = [] ∧ o = .ok ()) false .empty data ((linesOf [] data).map .string) := by
    rw [hstart, ← List.append_nil ((linesOf [] data).map Value.string)]
    exact receives_gather hbound hlines List.not_mem_nil fun _ => ⟨rfl, rfl, rfl⟩
  obtain ⟨s', put, more, t', moved', w₁, hsupplied, ht', hput, hshares, hs', hw₁⟩ :=
    supplied ht hreads (fun _ _ _ _ _ h => h.1) (hstart .values rig.pipe rig.out) (by omega)
      (w.conveys_capturing hi bytes capacity 2 _ hc) rfl rfl (w.collects_capturing hi bytes capacity 2 _) rfl
      fun e he => (hnew e he).1
  -- The readers come to their ends, and the capture takes what they collected.
  have hvalues := hstart .values rig.pipe rig.out
  obtain ⟨w₂, hgathers, hw₂⟩ := gathers ht' (show 2 ≤ bound by omega) hs' hshares hw₁
    [(who, awaitReaders rig.pipe rig.out (w.nextTask + 0) (w.nextTask + 1) rest)] moved'
  have hround := next_round_same start hw₂.spawned
    (List.cons_ne_nil (who, awaitReaders rig.pipe rig.out (w.nextTask + 0) (w.nextTask + 1) rest) [])
  rw [List.nil_append, hput] at hw₂
  obtain ⟨w', htakes, hothers, hspawned, hended⟩ := takes start hnew (Nat.succ_ne_self _) hw₂ [] [] false
  refine ⟨w', hstarts.trans (hsupplied.trans ((hvalues ▸ hgathers).trans (.head hround htakes))), ?_,
    hspawned.trans hrest.spawned.symm, hended⟩
  intro k hk
  rw [hothers k (Nat.ne_of_lt hk)]
  show (w.collectors.push _)[k]? = _
  rw [Array.getElem?_push, if_neg (Nat.ne_of_lt hk)]

end Moment

/-! ## A program that captures -/

/-- A command that is a builtin, as a program. -/
def Source.Chunk.ofBuiltin (b : Builtin) (args : List Source.Word) (whole form : Span) : Source.Chunk :=
  ⟨[⟨[⟨[], .command ⟨.bare b.name, args, []⟩, [], form⟩], false, whole⟩]⟩

/-- The program `put (b)`, for a builtin. -/
def Source.Chunk.putOutput (b : Builtin) (whole form innerWhole innerForm : Span) : Source.Chunk :=
  .ofBuiltin .put [.capture (.ofBuiltin b [] innerWhole innerForm)] whole form

/-- The block of a builtin. -/
def Code.Block.ofBuiltin (b : Builtin) (args : List Code.Operand) (inner outer : Place) (text : String) : Code.Block :=
  ⟨[⟨[.ofBuiltin b args inner], false, outer, text⟩]⟩

section

open Compile

/-- A chunk of one builtin resolves to the call of it. -/
theorem compileChunk_builtin (b : Builtin) (src : String) (whole form : Span) {s : Scope}
    (h : s.resolve (b.name ++ "~") = (none, s))
    {args : List Source.Word} {ops : List Code.Operand} (hargs : (compileWords src form args).run.run s = (.ok ops, s)) :
    ∃ text, (compileChunk src (.ofBuiltin b args whole form)).run.run s =
    (.ok (.ofBuiltin b ops ⟨src, form⟩ ⟨src, whole⟩ text), s) := by
  have hforms : (compileForms src [⟨[], .command ⟨.bare b.name, args, []⟩, [], form⟩]).run.run s =
    (.ok [.ofBuiltin b ops ⟨src, form⟩], s) := by
    simp only [compileForms, pure_bind]
    rw [Compile.run_bind (compileForm_builtin b src form h hargs)]
    rfl
  have hpipeline :
    ∃ text, (compilePipeline src ⟨[⟨[], .command ⟨.bare b.name, args, []⟩, [], form⟩], false, whole⟩).run.run s =
      (.ok ⟨[.ofBuiltin b ops ⟨src, form⟩], false, ⟨src, whole⟩, text⟩, s) := by
    unfold compilePipeline
    rw [Compile.run_bind hforms]
    exact ⟨_, rfl⟩
  obtain ⟨text, hpipeline⟩ := hpipeline
  refine ⟨text, ?_⟩
  unfold Source.Chunk.ofBuiltin
  simp only [compileChunk, compilePipelines, pure_bind]
  rw [bind_assoc, Compile.run_bind hpipeline]
  rfl

/-- The program resolves to a call of `put` with a capture where no variable holds a function of either name. -/
theorem Source.Chunk.compile_putOutput {b : Builtin} {names : List String} (src : String)
    (whole form innerWhole innerForm : Span) (hput : "put~" ∉ names) (hb : b.name ++ "~" ∉ names) :
    ∃ innerText text, (Source.Chunk.putOutput b whole form innerWhole innerForm).compile src (.ofGlobals names) =
      (.ok (.ofBuiltin .put [.capture (.ofBuiltin b [] ⟨src, innerForm⟩ ⟨src, innerWhole⟩ innerText)]
        ⟨src, form⟩ ⟨src, whole⟩ text), .ofGlobals names) := by
  obtain ⟨innerText, hinner⟩ := compileChunk_builtin b src innerWhole innerForm (Scope.resolve_ofGlobals hb)
    (show (compileWords src innerForm []).run.run (.ofGlobals names) = (.ok [], .ofGlobals names) from rfl)
  have hargs : (compileWords src form [.capture (.ofBuiltin b [] innerWhole innerForm)]).run.run (.ofGlobals names) =
      (.ok [.capture (.ofBuiltin b [] ⟨src, innerForm⟩ ⟨src, innerWhole⟩ innerText)], .ofGlobals names) := by
    simp only [compileWords, compileWord, pure_bind, bind_assoc]
    rw [Compile.run_bind hinner]
    rfl
  obtain ⟨text, hchunk⟩ := compileChunk_builtin .put src whole form
    (Scope.resolve_ofGlobals (show Builtin.put.name ++ "~" ∉ names from hput)) hargs
  exact ⟨innerText, text, by simp only [compile, putOutput, hchunk]⟩

end

namespace Evaluator

variable (e : Evaluator)

/-- A form that calls a builtin is the call, and nothing else. -/
theorem evalForm_ofBuiltin (b : Builtin) (args : List Code.Operand) (place : Place) (ctx : Context) :
    (e.evalForm (.ofBuiltin b args place) ctx .loose).run =
      (e.evalAction (.call ⟨.builtin b, args, []⟩) ctx).run.bind (leave .loose place) :=
  e.evalForm_wired _ place ctx .loose

/-- What `put` does with the values of an operand. -/
theorem evalAction_put (op : Code.Operand) (ctx : Context) :
    e.evalAction (.call ⟨.builtin .put, [op], []⟩) ctx = (e.operand op ctx >>= fun vs => ctx.putAll vs) := by
  have happly : ∀ vs : List Value, Builtin.put.schema.apply ⟨vs, []⟩ = .ok ⟨vs, []⟩ := fun _ => rfl
  have hinvoke : ∀ vs : List Value, e.invoke .put vs [] ctx = ctx.putAll vs := by
    intro vs
    unfold invoke
    rw [happly]
    rfl
  unfold evalAction evalCall
  simp only [callee, all, optValues, pure_bind, bind_assoc, hinvoke, List.append_nil]

/-- The block of a builtin supplies what the builtin supplies. -/
theorem supplies_block {b : Builtin} {bound depth : Nat} {vs : List Value} {data : Bytes} (h : b.Supplies bound vs data)
    {ctx : Context} {i : ChannelId} {o : Outlet} {c : Channel} (hinput : ctx.descriptors.input? 0 = some (.channel i))
    (houtput : ctx.descriptors.output? 1 = some o) (hc : c.Holds vs) (inner outer : Place) (text : String) (who : TaskId) :
    ((Evaluator.atDepth bound (depth + 2)).block (.ofBuiltin b [] inner outer text) ctx).Supplies who i o
      (fun r _ left => left = [] ∧ r = .ok ()) c data := by
  have hbound : (Evaluator.atDepth bound depth).bound = bound := by cases depth <;> rfl
  have hform : ((Evaluator.atDepth bound depth).evalForm (.ofBuiltin b [] inner) ctx .loose).Supplies who i o
      (fun r _ left => left = [] ∧ r = .ok ()) c data := by
    unfold Eval.Supplies
    rw [evalForm_ofBuiltin]
    refine Task.Supplies.bind ((h _ ctx who i o c hbound hinput houtput hc).mono ?_)
    rintro r c' left ⟨hleft, rfl⟩
    exact .ret ⟨hleft, rfl⟩
  refine supplies_bind (x := (Evaluator.atDepth bound depth).evalForm (.ofBuiltin b [] inner) ctx .loose) (hform.mono ?_)
  rintro r c' left ⟨hleft, rfl⟩
  exact supplies_pure ⟨hleft, rfl⟩

/-- The program captures, puts what it captured, and ends. -/
theorem run_putOutput (bound depth : Nat) (body : Code.Block) (inner outer : Place) (text : String) (ctx : Context) :
    ((Evaluator.atDepth bound (depth + 2)).evalBlock (.ofBuiltin .put [.capture body] inner outer text) ctx).run =
      ((Evaluator.atDepth bound depth).capture body ctx).run.bind fun r =>
        ((Eval.after (fun vs => ctx.putAll vs) r).bind (leave .loose inner)).bind (Eval.after fun _ => pure ()) := by
  have hblock : (Evaluator.atDepth bound (depth + 2)).evalBlock (.ofBuiltin .put [.capture body] inner outer text) ctx =
      ((Evaluator.atDepth bound (depth + 1)).evalForm (.ofBuiltin .put [.capture body] inner) ctx .loose >>= fun _ =>
        pure ()) := rfl
  have hoperand : (Evaluator.atDepth bound (depth + 1)).operand (.capture body) ctx =
    (Evaluator.atDepth bound depth).capture body ctx := rfl
  rw [hblock, Eval.run_bind, evalForm_ofBuiltin, evalAction_put, hoperand, Eval.run_bind, Task.bind_assoc, Task.bind_assoc]
  exact congrArg _ (funext fun r => (Task.bind_assoc _ _ _).symm)

end Evaluator

namespace World

variable {k : KernelId} {kernel : Kernel} {b : Builtin} {vs : List Value} {data : Bytes} {l : Limits}

/-- Values are put one after another. -/
theorem Collects.putAll (who : TaskId) {ctx : Context} (houtput : ctx.descriptors.output? 1 = some (.collector rig.out))
    (more : List Value) (hw : w.Collects rig before values ended) :
    (ctx.putAll more).Alone who (fun o w' => o = .ok () ∧ w'.Collects rig before (values ++ more) ended) w := by
  have houtlet : ctx.descriptors.expectOutput 1 = .ok (.collector rig.out) := by simp [Descriptors.expectOutput, houtput]
  induction more generalizing w values with
  | nil => exact alone_pure ⟨rfl, by rwa [List.append_nil]⟩
  | cons v more ih =>
    obtain ⟨collectors, hput, hw'⟩ := hw.put who v
    have hrest := ih hw'
    rw [List.append_assoc] at hrest
    unfold Context.putAll Context.put
    simp only [houtlet]
    exact alone_bind (alone_ask_bind hput hrest)

/-- The program comes to its end on a machine where nothing else runs. -/
theorem goes_putOutput (hrest : w.Resting) (hdepth : 4 ≤ l.depth) (hsupplies : b.Supplies l.loop vs data)
    (hbound : 3 * data.length + 1 < l.loop) (hlines : (linesOf [] data).length < l.loop) (globals : FrameId)
    (innerForm innerWhole form whole : Place) (innerText text : String) :
    ∃ w' : World, Goes l.evaluator.evalWork ⟨[(w.nextTask, (l.evaluator.evalBlock
          (.ofBuiltin .put [.capture (.ofBuiltin b [] innerForm innerWhole innerText)] form whole text)
          (w.pipelineContext k globals)).run)],
        [], false, { w.fed vs with nextTask := w.nextTask + 1 }⟩ ⟨[], [], true, w'.endTask w.nextTask (.ok ())⟩ ∧
      w'.PutsOnly w ((linesOf [] data).map .string) := by
  obtain ⟨depth, hdepth⟩ := Nat.exists_eq_add_of_le' hdepth
  have hevaluator : l.evaluator = Evaluator.atDepth l.loop (depth + 2 + 2) := by rw [Limits.evaluator, hdepth]
  have hgather : ∀ side p k', l.evaluator.evalWork (.gather side p k' (w.pipelineContext k globals)) =
    (gather side p k' l.loop).run := by
    intro side p k'
    rw [hevaluator]
    rfl
  have hrest₀ : World.Resting { w.fed vs with nextTask := w.nextTask + 1 } :=
    ⟨hrest.spawned, fun e he => Nat.lt_succ_of_lt (hrest.ended e he)⟩
  have hblock : ∀ p, ((Evaluator.atDepth l.loop (depth + 2)).block (.ofBuiltin b [] innerForm innerWhole innerText)
      ((w.pipelineContext k globals).withDescriptors
        ((w.pipelineContext k globals).descriptors.set 1 (some (.writing (.channel p)))))).Supplies
        w.nextTask w.nextRig.input (.channel p) (fun r _ left => left = [] ∧ r = .ok ()) (.closedWith [] vs) data := fun p =>
    Evaluator.supplies_block hsupplies rfl rfl (Channel.holds_closedWith vs) innerForm innerWhole innerText w.nextTask
  have hinput : (w.fed vs).channels[w.nextRig.input]? = some (.closedWith [] vs) := Array.getElem?_push_size
  obtain ⟨w₁, hcaptures, hbeside⟩ :=
    captures (w := { w.fed vs with nextTask := w.nextTask + 1 }) hblock hinput hrest₀ hgather hbound hlines
    (fun r => ((Eval.after (fun vs => (w.pipelineContext k globals).putAll vs) r).bind (Evaluator.leave .loose form)).bind
      (Eval.after fun _ => pure ())) false
  have hrun := Evaluator.run_putOutput l.loop (depth + 2) (.ofBuiltin b [] innerForm innerWhole innerText) form whole text
    (w.pipelineContext k globals)
  rw [← hevaluator] at hrun
  have hsize : (w.fed vs).collectors.size = w.collectors.size + 2 := by simp [fed]
  have hw₁ : w₁.Collects w.nextRig w₁ [] w.ended :=
    ⟨(hbeside.collectors _ (by simp [fed, nextRig])).trans (getElem?_push_push w.collectors _ _).1, fun _ _ => rfl, rfl,
      hbeside.ended⟩
  have herr : w₁.collectors[w.collectors.size + 1]? = some ⟨[], []⟩ :=
    (hbeside.collectors _ (by simp [fed])).trans (w.err_fed vs)
  have hends : Task.Alone w.nextTask (fun o w' => o = .ok () ∧
    w'.Collects w.nextRig w₁ ((linesOf [] data).map .string) w.ended)
      ((((w.pipelineContext k globals).putAll ((linesOf [] data).map .string)).run.bind (Evaluator.leave .loose form)).bind
        (Eval.after fun _ => pure ())) w₁ := by
    refine Task.Alone.bind (Task.Alone.bind (Task.Alone.mono (hw₁.putAll w.nextTask rfl _) ?_))
    rintro o w' ⟨rfl, hw'⟩
    exact ⟨rfl, hw'⟩
  obtain ⟨o, w', hfinishes, rfl, hw'⟩ := hends.finishes l.evaluator.evalWork [] [] true
  rw [hrun]
  exact ⟨w', hcaptures.trans hfinishes, hw'.putsOnly herr (hbeside.spawned.trans hrest.spawned)⟩

/-- The program puts the lines of what the builtin writes, whatever the channel of its capture holds, and nothing else
is left of it. -/
theorem executes_putOutput (hrest : w.Resting) (hk : w.kernel? k = some kernel) (hput : "put~" ∉ kernel.names)
    (hb : b.name ++ "~" ∉ kernel.names) (hdepth : 4 ≤ l.depth) (hsupplies : b.Supplies l.loop vs data)
    (hbound : 3 * data.length + 1 < l.loop) (hlines : (linesOf [] data).length < l.loop) (src : String)
    (whole form innerWhole innerForm : Span) : ∃ w' enough, ∀ requests rounds, enough ≤ requests → enough ≤ rounds →
      w.executeWithin { l with requests, rounds } k (.putOutput b whole form innerWhole innerForm) src [] vs =
        (.ran ⟨"", "", (linesOf [] data).map .string, none⟩, w') := by
  obtain ⟨innerText, text, hcompile⟩ := Source.Chunk.compile_putOutput src whole form innerWhole innerForm hput hb
  exact executes_of_goes hrest hk hcompile fun w₀ kernel₀ hrest₀ _ =>
    goes_putOutput hrest₀ hdepth hsupplies hbound hlines kernel₀.globals ⟨src, innerForm⟩ ⟨src, innerWhole⟩
      ⟨src, form⟩ ⟨src, whole⟩ innerText text

end World

end DualShell
