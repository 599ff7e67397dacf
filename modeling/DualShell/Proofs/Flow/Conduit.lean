import DualShell.Proofs.Flow.Receipt
import DualShell.Proofs.Flow.Supply
import DualShell.Proofs.Machine.Alone
import DualShell.Proofs.Machine.Moment

/-!
# A pipe between two tasks

One task supplies bytes to a channel and another one receives them: the first one writes until the pipe is full, and the
second one reads until it is empty, in turns. Whatever the pipe holds at most, the first one comes to the end of what it
supplies while the second one has received a beginning of it (`Moment.conveys`), and two forms of a pipeline both come
to their ends (`Moment.conducts`). A `Stage` is how far they are, and every round but the last leaves less to be
received.
-/

namespace DualShell

open Moment

/-! ## The channel between them -/

/-- The channel carries bytes to its reader, and no values; so many shares of the producer's end are left. -/
structure Channel.Carries (c : Channel) (reader : LineReader) (waiting : Bytes) (shares : Nat) : Prop where
  values : c.values.items.toList = []
  senders : c.values.senders = shares
  capacity : 0 < c.pipe.capacity
  buffer : c.pipe.buffer.toList = waiting
  reader : c.reader = reader
  alive : c.pipe.readerAlive = true
  writers : c.pipe.writers = shares
  outlets : c.outlets = shares

/-- A new channel carries nothing and has one share. -/
theorem Channel.carries_create (bytes values : Nat) : (Channel.create bytes values).Carries .empty [] 1 :=
  ⟨rfl, rfl, Nat.le_max_right _ _, rfl, rfl, rfl, rfl, rfl⟩

namespace Channel.Carries

variable {c : Channel} {reader : LineReader} {waiting piece : Bytes} {shares : Nat} {who : TaskId}

/-- The pipe is full, or it accepts some of the bytes. -/
theorem write (h : c.Carries reader waiting shares) (hpiece : piece ≠ []) (who : TaskId) :
    (∃ c', c.write who piece = (.pending, c') ∧ waiting ≠ [] ∧ c'.Carries reader waiting shares) ∨
      ∃ n c', 0 < n ∧ n ≤ piece.length ∧ c.write who piece = (.accepted n, c') ∧
      c'.Carries reader (waiting ++ piece.take n) shares := by
  have hsize : c.pipe.buffer.size = waiting.length := by rw [Queue.size_eq_length, h.buffer]
  have hempty : piece.isEmpty = false := by simpa using hpiece
  have hlength : 0 < piece.length := List.length_pos_iff.2 hpiece
  have hcapacity := h.capacity
  by_cases hroom : c.pipe.room = 0
  · left
    refine ⟨{ c with pipe := c.pipe.parkWriter who }, ?_, ?_, ?_⟩
    · simp [Channel.write, BytePipe.write, hempty, h.alive, hroom]
    · rintro rfl
      unfold BytePipe.room at hroom
      simp only [List.length_nil] at hsize
      omega
    · unfold BytePipe.parkWriter
      split <;> exact ⟨h.values, h.senders, h.capacity, h.buffer, h.reader, h.alive, h.writers, h.outlets⟩
  · right
    refine ⟨min c.pipe.room piece.length,
      { c with
          pipe := { c.pipe with
            buffer := c.pipe.buffer.append (piece.take (min c.pipe.room piece.length))
            parkedReader := none } },
      by omega, Nat.min_le_right _ _, ?_, h.values, h.senders, h.capacity, ?_, h.reader, h.alive, h.writers, h.outlets⟩
    · simp [Channel.write, BytePipe.write, hempty, h.alive, hroom]
    · rw [Queue.toList_append, h.buffer]

/-- A reader that fetches finds nothing while there may come more, or it gets as much as if so many of all bytes that
will come had been handed out. -/
theorem fetches (h : c.Carries reader waiting shares) {data : Bytes} (hdata : shares = 0 → data = []) (who : TaskId) :
    (0 < shares ∧ waiting = [] ∧ reader.ahead = [] ∧
      ∃ pipe, BytePipe.fetch who fetchSize c.pipe = (.pending, pipe) ∧ Carries { c with pipe } reader [] shares) ∨
    ∃ n piece waiting' pipe, 0 < n ∧ LineReader.Fetches (BytePipe.fetch who) reader c.pipe piece pipe ∧
      LineReader.Fetches (handOut n) reader (waiting ++ data) piece (waiting' ++ data) ∧
      Carries { c with pipe } reader waiting' shares ∧ (reader.atEnd (waiting ++ data) = true → shares = 0) := by
  have hsize : c.pipe.buffer.size = waiting.length := by rw [Queue.size_eq_length, h.buffer]
  by_cases hahead : reader.ahead = []
  · simp only [LineReader.Fetches, if_pos hahead]
    by_cases hwaiting : waiting = []
    · subst hwaiting
      by_cases hshares : shares = 0
      · obtain rfl := hdata hshares
        have hfetch : BytePipe.fetch who fetchSize c.pipe = (.bytes [], c.pipe) := by
          simp [BytePipe.fetch, BytePipe.read, hsize, h.writers, hshares]
        exact .inr ⟨1, [], [], c.pipe, Nat.one_pos, hfetch, rfl, h, fun _ => hshares⟩
      · have hfetch : BytePipe.fetch who fetchSize c.pipe = (.pending, { c.pipe with parkedReader := some who }) := by
          simp [BytePipe.fetch, BytePipe.read, hsize, h.writers, hshares]
        exact .inl ⟨Nat.pos_of_ne_zero hshares, rfl, hahead, _, hfetch, h.values, h.senders, h.capacity, h.buffer,
          h.reader, h.alive, h.writers, h.outlets⟩
    · have hlength : 0 < waiting.length := List.length_pos_iff.2 hwaiting
      have hfetch : BytePipe.fetch who fetchSize c.pipe =
          (.bytes (waiting.take fetchSize), { c.pipe with buffer := (c.pipe.buffer.take fetchSize).2, parkedWriters :=
            [] }) := by
        simp [BytePipe.fetch, BytePipe.read, hsize, h.buffer, hwaiting]
      have hbuffer : (c.pipe.buffer.take fetchSize).2.toList = waiting.drop fetchSize := by
        rw [Queue.toList_take_snd, h.buffer]
      have htake : (waiting ++ data).take (min fetchSize waiting.length) = waiting.take fetchSize := by
        rw [List.take_append_of_le_length (Nat.min_le_right _ _), ← List.take_eq_take_min]
      have hdrop : (waiting ++ data).drop (min fetchSize waiting.length) = waiting.drop fetchSize ++ data := by
        have hall : waiting.drop (min fetchSize waiting.length) = waiting.drop fetchSize :=
          List.drop_eq_drop_iff.2 (by omega)
        rw [List.drop_append_of_le_length (Nat.min_le_right _ _), hall]
      exact .inr ⟨min fetchSize waiting.length, _, _, _, Nat.lt_min.2 ⟨by decide, hlength⟩, hfetch,
        by rw [handOut, htake, hdrop],
        ⟨h.values, h.senders, h.capacity, hbuffer, h.reader, h.alive, h.writers, h.outlets⟩,
        by simp [LineReader.atEnd, hwaiting]⟩
  · simp only [LineReader.Fetches, if_neg hahead]
    exact .inr ⟨1, [], waiting, c.pipe, Nat.one_pos, rfl, rfl, h, by simp [LineReader.atEnd, hahead]⟩

/-- A read waits while there may come more, or it takes a step as if so many of all bytes that will come had been handed
out. -/
theorem read {α : Type} {step : LineReader.Kind α} (hstep : LineReader.Steady @step)
    (h : c.Carries reader waiting shares) {data : Bytes} (hdata : shares = 0 → data = []) (who : TaskId) :
    (0 < shares ∧ waiting = [] ∧ ∃ c', c.reading (step (BytePipe.fetch who)) = (.blocked, c') ∧
      c'.Carries reader [] shares) ∨
    ∃ n out reader' waiting' c', 0 < n ∧ out ≠ .blocked ∧ c.reading (step (BytePipe.fetch who)) = (out, c') ∧
      step (handOut n) reader (waiting ++ data) = (out, reader', waiting' ++ data) ∧ c'.Carries reader' waiting' shares ∧
      (reader.atEnd (waiting ++ data) = true → shares = 0) := by
  rcases h.fetches hdata who with ⟨hshares, hwaiting, hahead, pipe, hfetch, h'⟩ | ⟨n, piece, waiting', pipe, hn, hfetch,
    hhand, h', hend⟩
  · refine .inl ⟨hshares, hwaiting, { c with pipe }, ?_, h'⟩
    rw [Channel.reading, h.reader, hstep.waits _ _ _ _ hahead hfetch, ← h.reader]
  · obtain ⟨out, reader', hout, hsame⟩ := hstep.moves reader piece
    refine .inr ⟨n, out, reader', waiting', { c with pipe, reader := reader' }, hn, hout, ?_, hsame _ _ _ hhand,
      ⟨h'.values, h'.senders, h'.capacity, h'.buffer, rfl, h'.alive, h'.writers, h'.outlets⟩, hend⟩
    rw [Channel.reading, h.reader, hsame _ _ _ hfetch]

/-- When its last share is dropped, a channel ends with what waits in it. -/
theorem dropOutlet (h : c.Carries reader waiting 1) : c.dropOutlet.Carries reader waiting 0 := by
  have hpipe : c.dropOutlet.pipe = c.pipe.releaseWriter := by simp [Channel.dropOutlet, h.outlets]
  have houtlets : c.dropOutlet.outlets = 0 := by simp [Channel.dropOutlet, h.outlets]
  have hwriters : c.pipe.releaseWriter.writers = 0 := by simp [BytePipe.releaseWriter, h.writers]
  have hsenders : c.dropOutlet.values.senders = 0 := by simp [Channel.dropOutlet, ValueQueue.releaseSender, h.senders]
  exact ⟨h.values, hsenders, hpipe ▸ h.capacity, hpipe ▸ h.buffer, h.reader, hpipe ▸ h.alive, hpipe ▸ hwriters, houtlets⟩

/-- Who wants nothing but values waits for them while one may come, and finds that there are none after that. -/
theorem item_values (h : c.Carries reader waiting shares) (who : TaskId) :
    c.item .values who Side.values.only = (if shares = 0 then .more else .blocked, ⟨decide (shares ≠ 0), false⟩, c) := by
  have hfst : (c.values.items.take 1).1 = [] := by rw [Queue.take_fst, h.values]; rfl
  rcases htake : c.values.items.take 1 with ⟨front, items⟩
  rw [htake] at hfst
  obtain rfl : front = [] := hfst
  by_cases hshares : shares = 0
  · simp [Channel.item, Side.only, Channel.valueItem, Channel.recv, ValueQueue.recv, htake, h.senders, hshares]
  · simp [Channel.item, Side.only, Channel.valueItem, Channel.lineItem, Channel.recv, ValueQueue.recv, htake,
      h.senders, hshares]

end Channel.Carries

/-! ## The machine -/

/-- The numbers of the input of the first task, of the channel between the two, and of the collector for which the
second one puts values. -/
structure Rig where
  input : ChannelId
  pipe : ChannelId
  out : CollectorId
  channels : input ≠ pipe

/-- How far the two tasks are: the input of the first one, the reader of the second one, what is on its way, and who may
still write. -/
structure Stage where
  input : Channel
  reader : LineReader
  waiting : Bytes
  shares : Nat

namespace World

/-- These values were put and these tasks have ended; for the rest, the collectors and what is to be started are as
before. -/
structure Collects (w : World) (rig : Rig) (before : World) (values : List Value) (ended : List (TaskId × Outcome)) :
    Prop where
  out : w.collectors[rig.out]? = some ⟨[], values.reverse⟩
  others : ∀ k, k ≠ rig.out → w.collectors[k]? = before.collectors[k]?
  spawned : w.spawned = before.spawned
  ended : w.ended = ended

/-- The channels of the pipeline on the machine. -/
structure Conveys (w : World) (rig : Rig) (s : Stage) : Prop where
  input : w.channels[rig.input]? = some s.input
  pipe : ∃ c, w.channels[rig.pipe]? = some c ∧ c.Carries s.reader s.waiting s.shares

variable {w w' before : World} {rig : Rig} {values : List Value} {ended : List (TaskId × Outcome)} {s : Stage} {who : TaskId}
  {c c' : Channel}

/-- What is collected does not depend on the channels. -/
theorem Collects.on (h : w.Collects rig before values ended) (channels : Array Channel) :
    Collects { w with channels } rig before values ended :=
  ⟨h.out, h.others, h.spawned, h.ended⟩

/-- The end of another task is noted and changes nothing of what is collected. -/
theorem Collects.endTask (h : w.Collects rig before values ended) (who : TaskId) (o : Outcome) :
    (w.endTask who o).Collects rig before values (ended ++ [(who, o)]) :=
  ⟨h.out, h.others, h.spawned, congrArg (· ++ [(who, o)]) h.ended⟩

/-- A value that is put to the collector joins those that were. -/
theorem Collects.put (h : w.Collects rig before values ended) (who : TaskId) (v : Value) :
    ∃ collectors, w.perform who (.put (.collector rig.out) v) = (some (.ok ()), { w with collectors }) ∧
      Collects { w with collectors } rig before (values ++ [v]) ended := by
  refine ⟨_, rfl, ?_, fun k hk => ?_, h.spawned, h.ended⟩
  · show (w.collectors.modify rig.out _)[rig.out]? = _
    rw [Array.getElem?_modify, if_pos rfl, h.out]
    simp
  · show (w.collectors.modify rig.out _)[k]? = _
    rw [Array.getElem?_modify, if_neg (Ne.symm hk)]
    exact h.others k hk

namespace Conveys

/-- The channel between the forms changes. -/
theorem onPipe (h : w.Conveys rig s) {reader : LineReader} {waiting : Bytes} {shares : Nat}
    (hc : c.Carries reader waiting shares) :
    Conveys { w with channels := w.channels.setIfInBounds rig.pipe c } rig { s with reader, waiting, shares } := by
  obtain ⟨old, hold, -⟩ := h.pipe
  have hlt : rig.pipe < w.channels.size := (Array.getElem?_eq_some_iff.1 hold).1
  refine ⟨?_, c, ?_, hc⟩
  · rw [Array.getElem?_setIfInBounds_ne rig.channels.symm]
    exact h.input
  · exact Array.getElem?_setIfInBounds_self_of_lt hlt

/-- An item of the input is taken, and the pipe stays as it is. -/
theorem item (h : w.Conveys rig s) {m m' : Merging} {step : Step (Option Value)}
    (hitem : s.input.item .values who m = (step, m', c'))
    (hstep : step ≠ .blocked) : ∃ channels, w.perform who (.item (.channel rig.input) m) = (some (step, m'),
      { w with channels }) ∧ Conveys { w with channels } rig { s with input := c' } := by
  have hlt : rig.input < w.channels.size := (Array.getElem?_eq_some_iff.1 h.input).1
  refine ⟨w.channels.setIfInBounds rig.input c', ?_, ?_, ?_⟩
  · cases step with
    | blocked => exact absurd rfl hstep
    | more | done | failed => simp [perform, World.item, h.input, hitem]
  · exact Array.getElem?_setIfInBounds_self_of_lt hlt
  · obtain ⟨c, hc, hcarries⟩ := h.pipe
    refine ⟨c, ?_, hcarries⟩
    rw [Array.getElem?_setIfInBounds_ne rig.channels]
    exact hc

/-- Bytes are written to the pipe as many as fit, unless it is full and the writer waits. -/
theorem write (h : w.Conveys rig s) {piece : Bytes} (hpiece : piece ≠ []) (who : TaskId) :
    (∃ channels, w.perform who (.write (.channel rig.pipe) piece) = (none, { w with channels }) ∧ s.waiting ≠ [] ∧
      Conveys { w with channels } rig s) ∨
    ∃ n channels, 0 < n ∧ n ≤ piece.length ∧ w.perform who (.write (.channel rig.pipe) piece) =
    (some (.ok n), { w with channels }) ∧
      Conveys { w with channels } rig { s with waiting := s.waiting ++ piece.take n } := by
  obtain ⟨c, hc, hcarries⟩ := h.pipe
  rcases hcarries.write hpiece who with ⟨c', hwrite, hwaiting, hc'⟩ | ⟨n, c', hpos, hle, hwrite, hc'⟩
  · exact .inl ⟨_, by simp [perform, World.write, hc, hwrite], hwaiting, h.onPipe hc'⟩
  · exact .inr ⟨n, _, hpos, hle, by simp [perform, World.write, hc, hwrite], h.onPipe hc'⟩

/-- A read of the pipe has to wait while there may come more, or it is answered. -/
theorem read {α : Type} {q : Request} {step : LineReader.Kind α} {answer : Step α → q.Response}
    (hq : q.ReadsBy rig.pipe step answer)
    (hstep : LineReader.Steady @step) (h : w.Conveys rig s) {data : Bytes} (hdata : s.shares = 0 → data = [])
    (who : TaskId) : (0 < s.shares ∧ s.waiting = [] ∧ ∃ channels, w.perform who q = (none, { w with channels }) ∧
      Conveys { w with channels } rig { s with waiting := [] }) ∨
    ∃ n out reader waiting channels, 0 < n ∧ w.perform who q = (some (answer out), { w with channels }) ∧
      step (handOut n) s.reader (s.waiting ++ data) = (out, reader, waiting ++ data) ∧
      Conveys { w with channels } rig { s with reader, waiting } ∧
      (s.reader.atEnd (s.waiting ++ data) = true → s.shares = 0) := by
  obtain ⟨c, hc, hcarries⟩ := h.pipe
  rcases hcarries.read hstep hdata who with
    ⟨hshares, hwaiting, c', hread, hc'⟩ | ⟨n, out, reader, waiting, c', hn, hout, hread, hsupply, hc', hend⟩
  · exact .inl ⟨hshares, hwaiting, _, hq.waits hc hread, h.onPipe hc'⟩
  · exact .inr ⟨n, out, reader, waiting, _, hn, hq.moves hc hread hout, hsupply, h.onPipe hc', hend⟩

/-- Who wants nothing from the pipe finds its end. -/
theorem closed (h : w.Conveys rig s) (who : TaskId) :
    ∃ channels, w.perform who (.item (.channel rig.pipe) ⟨false, false⟩) = (some (.done none, ⟨false, false⟩),
      { w with channels }) ∧ Conveys { w with channels } rig s := by
  obtain ⟨c, hc, hcarries⟩ := h.pipe
  exact ⟨_, by simp [perform, World.item, hc, Channel.item], h.onPipe hcarries⟩

/-- Who wants nothing but values from the pipe waits while there may come more. -/
theorem values_wait (h : w.Conveys rig s) (hshares : 0 < s.shares) (who : TaskId) :
    ∃ channels, w.perform who (.item (.channel rig.pipe) Side.values.only) = (none, { w with channels }) ∧
      Conveys { w with channels } rig s := by
  obtain ⟨c, hc, hcarries⟩ := h.pipe
  have hitem := hcarries.item_values who
  rw [if_neg (Nat.ne_of_gt hshares)] at hitem
  exact ⟨_, by simp only [perform, World.item, hc, hitem], h.onPipe hcarries⟩

/-- Who wants nothing but values from the pipe finds in the end that there are none. -/
theorem values_end (h : w.Conveys rig s) (hshares : s.shares = 0) (who : TaskId) :
    ∃ channels, w.perform who (.item (.channel rig.pipe) Side.values.only) = (some (.more, ⟨false, false⟩),
      { w with channels }) ∧ Conveys { w with channels } rig s := by
  obtain ⟨c, hc, hcarries⟩ := h.pipe
  have hitem := hcarries.item_values who
  simp only [hshares, ne_eq, not_true, decide_false, if_true] at hitem
  exact ⟨_, by simp only [perform, World.item, hc, hitem], h.onPipe hcarries⟩

/-- The producer closes its end of the pipe. -/
theorem closeOutlet (h : w.Conveys rig s) (hshares : s.shares = 1) (who : TaskId) :
    ∃ channels, w.perform who (.closeOutlet (.channel rig.pipe)) = (some (), { w with channels }) ∧
      Conveys { w with channels } rig { s with shares := 0 } := by
  obtain ⟨c, hc, hcarries⟩ := h.pipe
  refine ⟨_, rfl, ?_, c.dropOutlet, ?_, (hshares ▸ hcarries).dropOutlet⟩
  · show (w.channels.modify rig.pipe Channel.dropOutlet)[rig.input]? = _
    rw [Array.getElem?_modify, if_neg rig.channels.symm]
    exact h.input
  · show (w.channels.modify rig.pipe Channel.dropOutlet)[rig.pipe]? = _
    rw [Array.getElem?_modify, if_pos rfl, hc]
    rfl

end Conveys

end World

/-! ## Turns -/

variable {start : Work → Task Outcome} {who : TaskId} {due had : List (TaskId × Task Outcome)} {w : World}
    {rig : Rig} {s : Stage}
  {before : World} {values : List Value} {ended : List (TaskId × Outcome)}

variable (start) in
/-- A task that is never kept waiting comes to its end in one turn. -/
theorem Task.Alone.finishes {t : Task Outcome} {Q : Outcome → World → Prop} (h : t.Alone who Q w)
    (due had : List (TaskId × Task Outcome))
    (moved : Bool) : ∃ o w', Goes start ⟨(who, t) :: due, had, moved, w⟩ ⟨due, had, true, w'.endTask who o⟩ ∧ Q o w' := by
  induction t generalizing moved w with
  | ret o => exact ⟨o, w, .single (next_ret o), h⟩
  | request r next ih =>
    obtain ⟨x, w₁, hx, hnext⟩ := h
    obtain ⟨o, w', hgoes, hQ⟩ := ih x hnext true
    exact ⟨o, w', .head (next_answer hx) hgoes, hQ⟩
  | exhausted => exact h.elim

/-- The first task writes until the pipe is full, or until it has written everything. -/
theorem Task.Supplies.turn {α : Type} {t : Task α} {Q : α → Channel → Bytes → Prop} {c : Channel} {data : Bytes}
    (h : t.Supplies who rig.input (.channel rig.pipe) Q c data) (hs : w.Conveys rig s) (hc : s.input = c)
    (hw : w.Collects rig before values ended)
    (f : α → Task Outcome) (due had : List (TaskId × Task Outcome)) (moved : Bool) :
    (∃ (t' : Task α) (c' : Channel) (waiting data' : Bytes) (moved' : Bool) (w' : World),
      Goes start ⟨(who, t.bind f) :: due, had, moved, w⟩ ⟨due, had ++ [(who, t'.bind f)], moved', w'⟩ ∧
      (moved = true → moved' = true) ∧
      t'.Supplies who rig.input (.channel rig.pipe) Q c' data' ∧ waiting ≠ [] ∧ waiting ++ data' = s.waiting ++ data ∧
      w'.Conveys rig { s with input := c', waiting } ∧ w'.Collects rig before values ended) ∨
    ∃ a c' waiting data' moved' w', Goes start ⟨(who, t.bind f) :: due, had, moved, w⟩ ⟨(who, f a) :: due, had, moved', w'⟩ ∧
      Q a c' data' ∧ waiting ++ data' = s.waiting ++ data ∧ w'.Conveys rig { s with input := c', waiting } ∧
      w'.Collects rig before values ended := by
  induction h generalizing s w moved with
  | @ret a c data hQ =>
    subst hc
    exact .inr ⟨a, s.input, s.waiting, data, moved, w, .refl, hQ, rfl, hs, hw⟩
  | item hitem hstep _ ih =>
    subst hc
    obtain ⟨channels, hperform, hs'⟩ := hs.item hitem hstep
    rcases ih hs' rfl (hw.on channels) true with
      ⟨t', c', waiting, data', moved', w', hgoes, hmoved, h⟩ | ⟨a, c', waiting, data', moved', w', hgoes, h⟩
    · exact .inl ⟨t', c', waiting, data', moved', w', .head (next_answer hperform) hgoes, fun _ => hmoved rfl, h⟩
    · exact .inr ⟨a, c', waiting, data', moved', w', .head (next_answer hperform) hgoes, h⟩
  | @write piece next c data hpiece hnext ih =>
    subst hc
    rcases hs.write hpiece who with ⟨channels, hperform, hwaiting, hs'⟩ | ⟨n, channels, hpos, hle, hperform, hs'⟩
    · exact .inl ⟨_, s.input, s.waiting, _, moved, _, .single (next_wait hperform), id, .write hpiece hnext, hwaiting,
        rfl, hs', hw.on channels⟩
    · have hsplit : s.waiting ++ piece.take n ++ (piece.drop n ++ data) = s.waiting ++ (piece ++ data) := by
        rw [List.append_assoc, ← List.append_assoc (piece.take n), List.take_append_drop]
      rcases ih n hpos hle hs' rfl (hw.on channels) true with
        ⟨t', c', waiting, data', moved', w', hgoes, hmoved, ht, hne, hall, h⟩ | ⟨a, c', waiting, data', moved', w',
          hgoes, hQ, hall, h⟩
      · exact .inl ⟨t', c', waiting, data', moved', w', .head (next_answer hperform) hgoes, fun _ => hmoved rfl, ht, hne,
          hall.trans hsplit, h⟩
      · exact .inr ⟨a, c', waiting, data', moved', w', .head (next_answer hperform) hgoes, hQ, hall.trans hsplit, h⟩

/-- What a turn of the second task comes to from a moment on, when these values are yet to be put and these bytes to be
written: it waits with an empty pipe, or it goes on with what it has come to. -/
inductive Task.Turned {α : Type} (start : Work → Task Outcome) (who : TaskId) (rig : Rig) (before : World)
    (Q : α → Bool → LineReader → Bytes → List Value → Prop) (f : α → Task Outcome)
    (due had : List (TaskId × Task Outcome)) (data : Bytes)
    (ended : List (TaskId × Outcome)) (s : Stage) (values more : List Value) (m : Moment) : Prop
  | waits {t : Task α} {reader : LineReader} {put more' : List Value} {moved : Bool} {w : World}
      (hgoes : Goes start m ⟨due, had ++ [(who, t.bind f)], moved, w⟩)
      (ht : t.Receives rig.pipe rig.out Q false reader data more')
      (hshares : 0 < s.shares) (hmoved : m.moved = true ∨ s.waiting ≠ [] → moved = true) (hput : put ++ more' = more)
      (hs : w.Conveys rig { s with reader, waiting := [] }) (hw : w.Collects rig before (values ++ put) ended)
  | ends {a : α} {past : Bool} {reader : LineReader} {coming : Bytes} {put more' : List Value} {moved : Bool} {w : World}
      (hgoes : Goes start m ⟨(who, f a) :: due, had, moved, w⟩) (hQ : Q a past reader coming more')
      (hpast : past = true → s.shares = 0)
      (hput : put ++ more' = more) (hw : w.Collects rig before (values ++ put) ended)

section Receiver

variable {α : Type} {Q : α → Bool → LineReader → Bytes → List Value → Prop} {f : α → Task Outcome} {data : Bytes}
    {more : List Value}

/-- A step before the rest of the turn. -/
theorem Task.Turned.head {m m' : Moment} {reader : LineReader} {waiting : Bytes} (put : List Value) {more' : List Value}
    (h : Task.Turned start who rig before Q f due had data ended { s with reader, waiting } (values ++ put) more' m')
    (hnext : m.next start = some m')
    (hmoved : m'.moved = true) (hput : put ++ more' = more) :
    Task.Turned start who rig before Q f due had data ended s values more m := by
  cases h with
  | waits hgoes ht hshares hmoved' hput' hs hw =>
    refine .waits (.head hnext hgoes) ht hshares (fun _ => hmoved' (.inl hmoved)) ?_ hs (List.append_assoc .. ▸ hw)
    rw [List.append_assoc, hput', hput]
  | ends hgoes hQ hpast hput' hw =>
    refine .ends (.head hnext hgoes) hQ hpast ?_ (List.append_assoc .. ▸ hw)
    rw [List.append_assoc, hput', hput]

variable (start who due had f) in
/-- The second task reads until the pipe is empty, or until it has come to its end. -/
theorem Task.Receives.turn {t : Task α} {past : Bool} {r : LineReader} {coming : Bytes}
    (h : t.Receives rig.pipe rig.out Q past r coming more) (hs : w.Conveys rig s) (hr : s.reader = r)
    (hcoming : s.waiting ++ data = coming)
    (hpast : past = true → s.shares = 0) (hdata : s.shares = 0 → data = []) (hw : w.Collects rig before values ended)
    (moved : Bool) :
    Task.Turned start who rig before Q f due had data ended s values more ⟨(who, t.bind f) :: due, had, moved, w⟩ := by
  have hsame : ∀ {w : World} {values : List Value}, w.Collects rig before values ended →
    w.Collects rig before (values ++ []) ended := by
    intro w values hw
    rw [List.append_nil]
    exact hw
  induction h generalizing s w values moved with
  | ret hQ => exact .ends .refl hQ hpast (List.nil_append _) (hsame hw)
  | @put v next past r coming more _ ih =>
    obtain ⟨collectors, hput, hw'⟩ := hw.put who v
    have hs' : World.Conveys { w with collectors } rig s := ⟨hs.input, hs.pipe⟩
    exact (ih hs' hr hcoming hpast hdata hw' true).head [v] (next_answer hput) rfl rfl
  | closed _ ih =>
    obtain ⟨channels, hperform, hs'⟩ := hs.closed who
    exact (ih hs' hr hcoming hpast hdata (hsame (hw.on channels)) true).head [] (next_answer hperform) rfl rfl
  | @read β q step answer next past r coming more hq hstep hnext ih =>
    subst hr hcoming
    rcases hs.read hq hstep hdata who with
      ⟨hshares, hwaiting, channels, hperform, hs'⟩ | ⟨n, out, reader, waiting, channels, hn, hperform, hsupply, hs', hend⟩
    · obtain rfl : past = false := Bool.eq_false_iff.2 fun hended => Nat.ne_of_gt hshares (hpast hended)
      rw [hwaiting] at hnext
      exact .waits (.single (next_wait hperform)) (.read hq hstep hnext) hshares
        (fun h => h.resolve_right (absurd hwaiting)) rfl hs' (hsame (hw.on channels))
    · have hpast' : (past || s.reader.atEnd (s.waiting ++ data)) = true → s.shares = 0 := by
        intro hor
        exact (Bool.or_eq_true_iff.1 hor).elim hpast hend
      have hrest := @ih n hn { w with channels } { s with reader, waiting } (values ++ [])
      rw [hsupply] at hrest
      exact (hrest hs' rfl rfl hpast' hdata (hsame (hw.on channels)) true).head [] (next_answer hperform) rfl rfl

end Receiver

variable (start) in
/-- A round begins in which nothing new is taken up. -/
theorem Moment.next_round_same (hspawned : w.spawned = []) {ts : List (TaskId × Task Outcome)} (hts : ts ≠ []) :
    Moment.next start ⟨[], ts, true, w⟩ = some ⟨ts, [], false, w⟩ := by
  obtain ⟨t, ts, rfl⟩ := List.exists_cons_of_ne_nil hts
  have hadopt : Pool.adopt start ⟨t :: ts, w⟩ = ⟨t :: ts, w⟩ := Pool.adopt_eq hspawned
  rw [next_round (congrArg Pool.tasks hadopt), hadopt]

/-! ### Tasks that wait beside them -/

/-- The task has to wait as long as the pipe may be written to and nobody else ends, and its waiting changes nothing. -/
def Task.Idles (who : TaskId) (rig : Rig) (before : World) (ended : List (TaskId × Outcome)) : Task Outcome → Prop
  | .request r _ =>
    ∀ (w : World) (s : Stage) (values : List Value), 0 < s.shares → w.Conveys rig s → w.Collects rig before values ended →
    ∃ channels, w.perform who r = (none, { w with channels }) ∧ World.Conveys { w with channels } rig s
  | _ => False

/-- A task waits for one that has not ended. -/
theorem World.join_waits {id : TaskId} (h : ∀ e ∈ w.ended, e.1 ≠ id) (who : TaskId) :
    w.perform who (.join id) = (none, w) := by
  have hnone : w.ended.find? (·.1 == id) = none := List.find?_eq_none.2 fun e he heq => h e he (beq_iff_eq.1 heq)
  simp [World.perform, World.takeEnded, hnone]

/-- A task that joins one that has not ended stays where it is. -/
theorem Task.idles_join {id : TaskId} (h : ∀ e ∈ ended, e.1 ≠ id) (who : TaskId) (rest : Outcome → Task Outcome) :
    Task.Idles who rig before ended (.request (.join id) rest) := by
  intro w s values _ hs hw
  exact ⟨w.channels, World.join_waits (by rw [hw.ended]; exact h) who, hs⟩

/-- The turns of tasks that wait. -/
theorem Moment.passes_idle {idle : List (TaskId × Task Outcome)} (hidle : ∀ t ∈ idle, t.2.Idles t.1 rig before ended)
    (hshares : 0 < s.shares)
    (hs : w.Conveys rig s) (hw : w.Collects rig before values ended) (due had : List (TaskId × Task Outcome))
    (moved : Bool) :
    ∃ w', Goes start ⟨idle ++ due, had, moved, w⟩ ⟨due, had ++ idle, moved, w'⟩ ∧ w'.Conveys rig s ∧
    w'.Collects rig before values ended := by
  induction idle generalizing w had with
  | nil => exact ⟨w, by rw [List.append_nil]; exact .refl, hs, hw⟩
  | cons t idle ih =>
    obtain ⟨who, task⟩ := t
    obtain ⟨hfirst, hrest⟩ := List.forall_mem_cons.1 hidle
    cases task with
    | ret | exhausted => exact hfirst.elim
    | request r next =>
      obtain ⟨channels, hperform, hs'⟩ := hfirst w s values hshares hs hw
      obtain ⟨w', hgoes, h⟩ := ih hrest hs' (hw.on channels) (had ++ [(who, .request r next)])
      rw [List.append_assoc] at hgoes
      exact ⟨w', .head (next_wait hperform) hgoes, h⟩

/-! ### Rounds -/

variable (start) in
/-- Round after round, the first task supplies bytes and the second one receives them, until the first one has supplied
everything: then it goes on, and the second one has received a beginning. The others wait all the while. -/
theorem Moment.conveys {α β : Type} {first : TaskId} (second : TaskId) {t : Task α} (f : α → Task Outcome) {t' : Task β}
    (g : β → Task Outcome) {idle idle' : List (TaskId × Task Outcome)} {data : Bytes} {more : List Value}
    {Q : α → Channel → Bytes → Prop}
    {Q' : β → Bool → LineReader → Bytes → List Value → Prop} (hidle : ∀ t ∈ idle ++ idle', t.2.Idles t.1 rig before ended)
    (ht : t.Supplies first rig.input (.channel rig.pipe) Q s.input data)
    (ht' : t'.Receives rig.pipe rig.out Q' false s.reader (s.waiting ++ data) more)
    (hpast : ∀ b past r coming left, Q' b past r coming left → past = true) (hs : w.Conveys rig s)
    (hw : w.Collects rig before values ended) (hspawned : before.spawned = []) (hshares : s.shares = 1) :
    ∃ a left s' put more' t'' moved w',
      Goes start ⟨idle ++ (first, t.bind f) :: (idle' ++ [(second, t'.bind g)]), [], false, w⟩
        ⟨(first, f a) :: (idle' ++ [(second, t''.bind g)]), idle, moved, w'⟩ ∧
      Q a s'.input left ∧ Task.Receives rig.pipe rig.out Q' t'' false s'.reader (s'.waiting ++ left) more' ∧
      put ++ more' = more ∧ s'.shares = 1 ∧ w'.Conveys rig s' ∧ w'.Collects rig before (values ++ put) ended := by
  obtain ⟨n, hn⟩ : ∃ n, (s.waiting ++ data).length = n := ⟨_, rfl⟩
  induction n using Nat.strongRecOn generalizing s w t t' data values more with
  | ind n ih =>
    subst hn
    have hopen : 0 < s.shares := hshares ▸ Nat.one_pos
    have hidles := List.forall_mem_append.1 hidle
    obtain ⟨w₁, hwait, hs₁, hw₁⟩ :=
      passes_idle hidles.1 hopen hs hw ((first, t.bind f) :: (idle' ++ [(second, t'.bind g)])) [] false
    rw [List.nil_append] at hwait
    rcases ht.turn hs₁ rfl hw₁ f (idle' ++ [(second, t'.bind g)]) idle false with
      ⟨t₁, c', waiting, data', moved', w₂, hgoes, -, ht₁, hne, hall, hs₂, hw₂⟩ | ⟨a, c', waiting, left, moved', w₂,
        hgoes, hQ, hall, hs₂, hw₂⟩
    · -- The pipe is full: the receiver empties it, and less is left.
      obtain ⟨w₃, hwait', hs₃, hw₃⟩ :=
        passes_idle (s := { s with input := c', waiting }) hidles.2 hopen hs₂ hw₂ [(second, t'.bind g)]
        (idle ++ [(first, t₁.bind f)]) moved'
      have hdata : s.shares = 0 → data' = [] := fun hzero => absurd hzero (Nat.ne_of_gt hopen)
      cases ht'.turn start second [] (idle ++ [(first, t₁.bind f)] ++ idle') g hs₃ rfl hall nofun hdata hw₃ moved' with
      | ends _ hQ' hended => exact absurd (hended (hpast _ _ _ _ _ hQ')) (Nat.ne_of_gt hopen)
      | @waits t₂ reader put more' moved₄ w₄ hgoes' ht₂ _ hmoved hput hs₄ hw₄ =>
        obtain rfl := hmoved (.inr hne)
        subst hput
        have hless : data'.length < (s.waiting ++ data).length := by
          have hpos : 0 < waiting.length := List.length_pos_iff.2 hne
          rw [← hall, List.length_append]
          omega
        have hround := next_round_same start (hw₄.spawned.trans hspawned)
          (show idle ++ [(first, t₁.bind f)] ++ idle' ++ [(second, t₂.bind g)] ≠ [] by simp)
        obtain ⟨a, left, s', put', more'', t'', moved, w', hrest, hQ, ht'', hput', h⟩ :=
          ih data'.length hless (t := t₁) (s := { s with input := c', reader, waiting := [] }) ht₁ ht₂ hs₄ hw₄ hshares rfl
        refine ⟨a, left, s', put ++ put', more'', t'', moved, w', ?_, hQ, ht'', by rw [List.append_assoc, hput'], h.1, h.2.1,
          List.append_assoc .. ▸ h.2.2⟩
        simp only [List.append_assoc, List.nil_append, List.cons_append] at hwait' hgoes' hround hrest
        exact hwait.trans (hgoes.trans (hwait'.trans (hgoes'.trans (.head hround hrest))))
    · -- The first task has come to its end, and nothing was received in this round.
      refine ⟨a, left, { s with input := c', waiting }, [], more, t', moved', w₂, hwait.trans hgoes, hQ, ?_, rfl,
        hshares, hs₂, ?_⟩
      · rw [hall]
        exact ht'
      · rw [List.append_nil]
        exact hw₂

/-- The first form supplies bytes and closes its end of the pipe, and the second one receives them and is not kept
waiting then: both end, while the task that joins them waits for the first one. -/
theorem Moment.conducts {α β : Type} {main first second : TaskId} {rest : Outcome → Task Outcome} {t : Task α}
    {f : α → Task Outcome}
    {t' : Task β} {g : β → Task Outcome} {last : Task Outcome} {data : Bytes} {more : List Value} {o o' : Outcome}
    (ht : t.Supplies first rig.input (.channel rig.pipe)
      (fun a _ left => left = [] ∧ f a = .request (.closeOutlet (.channel rig.pipe)) fun _ => .ret o) s.input data)
    (ht' : t'.Receives rig.pipe rig.out (fun b past _ _ left => past = true ∧ left = [] ∧
      g b = last) false s.reader data more)
    (hlast : ∀ w : World, w.Collects rig before (values ++ more) (ended ++ [(first, o)]) →
      last.Alone second (fun r w' => r = o' ∧ w'.Collects rig before (values ++ more) (ended ++ [(first, o)])) w)
    (hs : w.Conveys rig s) (hw : w.Collects rig before values ended) (hspawned : before.spawned = [])
    (hwaiting : s.waiting = []) (hshares : s.shares = 1) (hended : ∀ e ∈ ended, e.1 ≠ first) :
    ∃ w', Goes start ⟨[(main, .request (.join first) rest), (first, t.bind f), (second, t'.bind g)], [], false, w⟩
        ⟨[], [(main, .request (.join first) rest)], true, w'⟩ ∧
      w'.Collects rig before (values ++ more) (ended ++ [(first, o)] ++ [(second, o')]) := by
  have hidle : ∀ t ∈ [(main, Task.request (.join first) rest)] ++ [], t.2.Idles t.1 rig before ended := by
    intro t ht
    cases List.mem_singleton.1 ht
    exact Task.idles_join hended main rest
  have hcoming : s.waiting ++ data = data := by rw [hwaiting, List.nil_append]
  obtain ⟨a, left, s₁, put, more', t₁, moved, w₁, hgoes, ⟨rfl, hclose⟩, ht₁, hput, hshares₁, hs₁, hw₁⟩ :=
    conveys start second f g hidle ht (hcoming.symm ▸ ht') (fun _ _ _ _ _ h => h.1) hs hw hspawned hshares
  obtain ⟨channels, hperform, hs₂⟩ := hs₁.closeOutlet hshares₁ first
  have hclosed : Goes start ⟨(first, f a) :: [(second, t₁.bind g)], [(main, .request (.join first) rest)], moved, w₁⟩
      ⟨[(second, t₁.bind g)], [(main, .request (.join first) rest)], true, World.endTask { w₁ with channels } first o⟩ := by
    rw [hclose]
    exact .head (next_answer hperform) (.single (next_ret o))
  have hw₂ := (hw₁.on channels).endTask first o
  have hs₃ : (World.endTask { w₁ with channels } first o).Conveys rig { s₁ with shares := 0 } := ⟨hs₂.input, hs₂.pipe⟩
  cases ht₁.turn start second [] [(main, .request (.join first) rest)] g hs₃ rfl rfl nofun (fun _ => rfl) hw₂ true with
  | waits _ _ hopen => exact absurd hopen (Nat.lt_irrefl 0)
  | @ends b past reader coming put' more'' moved₃ w₃ hgoes' hQ _ hput' hw₃ =>
    obtain ⟨-, rfl, hg⟩ := hQ
    rw [List.append_nil] at hput'
    subst hput' hput
    rw [List.append_assoc] at hw₃
    obtain ⟨r, w', hgoes'', rfl, hw'⟩ := (hlast w₃ hw₃).finishes start [] [(main, .request (.join first) rest)] moved₃
    rw [hg] at hgoes'
    exact ⟨w'.endTask second r, hgoes.trans (hclosed.trans (hgoes'.trans hgoes'')), hw'.endTask second r⟩

end DualShell
