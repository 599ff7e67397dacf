import DualShell.Stream.Channel

/-!
# Channels but for who waits

Who is parked at a pipe is of no account to what is written to it and read from it. Two channels are alike if they are
the same but for that (`Channel.Like`): they stay alike and give the same results, whoever acts on them. To wait is
nothing but to be parked, and an input that is empty for good stays as it is.
-/

namespace DualShell

/-! ## Pipes -/

/-- The pipe with nobody parked at it. -/
def BytePipe.bare (p : BytePipe) : BytePipe := { p with parkedReader := none, parkedWriters := [] }

/-- The pipes are the same but for who is parked. -/
def BytePipe.Like (p p' : BytePipe) : Prop := p.bare = p'.bare

namespace BytePipe

variable {p p' : BytePipe}

/-- Pipes that are alike differ in who is parked. -/
theorem Like.exists_eq (h : p.Like p') : ∃ reader parked, p' = { p with parkedReader := reader, parkedWriters :=
      parked } := by
  obtain ⟨capacity, buffer, writers, alive, reader, parked⟩ := p
  obtain ⟨capacity', buffer', writers', alive', reader', parked'⟩ := p'
  obtain ⟨rfl, rfl, rfl, rfl⟩ : capacity = capacity' ∧ buffer = buffer' ∧ writers = writers' ∧ alive = alive' := by
    simpa [Like, bare] using h
  exact ⟨reader', parked', rfl⟩

/-- To park a writer leaves a pipe alike. -/
theorem parkWriter_like (p : BytePipe) (who : Waker) : (p.parkWriter who).Like p := by
  unfold parkWriter
  split <;> rfl

/-- Pipes stay alike when writers are parked at them. -/
theorem Like.parkWriter (h : p.Like p') (who who' : Waker) : (p.parkWriter who).Like (p'.parkWriter who') :=
  ((parkWriter_like p who).trans h).trans (parkWriter_like p' who').symm

/-- Bytes are written alike to pipes that are alike. -/
theorem Like.write (h : p.Like p') (who who' : Waker) (data : Bytes) :
    (p.write who data).1 = (p'.write who' data).1 ∧ (p.write who data).2.Like (p'.write who' data).2 := by
  obtain ⟨reader', parked', rfl⟩ := h.exists_eq
  obtain ⟨capacity, buffer, writers, alive, reader, parked⟩ := p
  unfold BytePipe.write room
  by_cases hdata : data.isEmpty
  · simp only [hdata, if_true]
    exact ⟨trivial, rfl⟩
  · cases alive with
    | false =>
      simp only [hdata, if_true, if_false, Bool.not_false, Bool.false_eq_true]
      exact ⟨trivial, rfl⟩
    | true =>
      by_cases hroom : capacity - buffer.size == 0
      · simp only [hdata, hroom, if_true, if_false, Bool.not_true, Bool.false_eq_true]
        exact ⟨trivial, h.parkWriter who who'⟩
      · simp only [hdata, hroom, if_false, Bool.not_true, Bool.false_eq_true]
        exact ⟨trivial, rfl⟩

/-- Bytes are read alike from pipes that are alike. -/
theorem Like.read (h : p.Like p') (who who' : Waker) (count : Nat) :
    (p.read who count).1 = (p'.read who' count).1 ∧ (p.read who count).2.Like (p'.read who' count).2 := by
  obtain ⟨reader', parked', rfl⟩ := h.exists_eq
  unfold BytePipe.read
  by_cases hempty : p.buffer.size == 0
  · by_cases hwriters : p.writers == 0
    · simp only [hempty, hwriters, if_true]
      exact ⟨trivial, h⟩
    · simp only [hempty, hwriters, if_true, if_false, Bool.false_eq_true]
      exact ⟨trivial, rfl⟩
  · simp only [hempty, if_false, Bool.false_eq_true]
    exact ⟨trivial, rfl⟩

/-- Bytes are fetched alike from pipes that are alike. -/
theorem Like.fetch (h : p.Like p') (who who' : Waker) (count : Nat) :
    (p.fetch who count).1 = (p'.fetch who' count).1 ∧ (p.fetch who count).2.Like (p'.fetch who' count).2 := by
  obtain ⟨hresult, hlike⟩ := h.read who who' count
  unfold BytePipe.fetch
  rcases hread : p.read who count with ⟨result, q⟩
  rcases hread' : p'.read who' count with ⟨result', q'⟩
  rw [hread, hread'] at hresult hlike
  cases hresult
  cases result <;> exact ⟨rfl, hlike⟩

/-- Whoever has to wait is parked, and nothing else. -/
theorem fetch_pending {q : BytePipe} {who : Waker} {count : Nat} (h : p.fetch who count = (.pending, q)) : q.Like p := by
  unfold BytePipe.fetch BytePipe.read at h
  by_cases hempty : p.buffer.size == 0
  · by_cases hwriters : p.writers == 0
    · simp [hempty, hwriters] at h
    · simp only [hempty, hwriters, if_true, if_false, Bool.false_eq_true] at h
      cases h
      rfl
  · simp [hempty] at h

/-- A writer that has to wait leaves the pipe alike. -/
theorem write_pending {q : BytePipe} {who : Waker} {data : Bytes} (h : p.write who data = (.pending, q)) : q.Like p := by
  unfold BytePipe.write at h
  split at h
  · cases h
  · split at h
    · cases h
    · split at h
      · cases h
        exact parkWriter_like p who
      · cases h

theorem Like.releaseWriter (h : p.Like p') : p.releaseWriter.Like p'.releaseWriter := by
  obtain ⟨reader, parked, rfl⟩ := h.exists_eq
  rfl

theorem Like.dropReader (h : p.Like p') : p.dropReader.Like p'.dropReader := by
  obtain ⟨reader, parked, rfl⟩ := h.exists_eq
  rfl

end BytePipe

/-! ## Readers -/

namespace LineReader

variable {σ : Type} {fetch fetch' : Nat → σ → Fetch × σ} {Like : σ → σ → Prop}

/-- The supplies give the same, and stay alike. -/
def Agree (Like : σ → σ → Prop) (fetch fetch' : Nat → σ → Fetch × σ) : Prop :=
  ∀ n s s', Like s s' → (fetch n s).1 = (fetch' n s').1 ∧ Like (fetch n s).2 (fetch' n s').2

/-- The steps give the same, leave the same reader, and leave supplies alike. -/
def Alike {α : Type} (Like : σ → σ → Prop) (x x' : Step α × LineReader × σ) : Prop :=
  x.1 = x'.1 ∧ x.2.1 = x'.2.1 ∧ Like x.2.2 x'.2.2

variable (hf : Agree Like fetch fetch') {s s' : σ} (hs : Like s s') (r : LineReader)
include hf hs

/-- Lines are read alike from supplies that are. -/
theorem line_alike : Alike Like (line fetch r s) (line fetch' r s') := by
  obtain ⟨hresult, hlike⟩ := hf fetchSize s s' hs
  unfold line
  split
  · rcases hx : fetch fetchSize s with ⟨result, t⟩
    rcases hx' : fetch' fetchSize s' with ⟨result', t'⟩
    rw [hx, hx'] at hresult hlike
    cases hresult
    cases result with
    | pending | failed => exact ⟨rfl, rfl, hlike⟩
    | bytes data =>
      dsimp only
      split
      · split <;> exact ⟨rfl, rfl, hlike⟩
      · exact ⟨rfl, rfl, hlike⟩
  · split <;> exact ⟨rfl, rfl, hs⟩

/-- All that comes is read alike from supplies that are. -/
theorem toEnd_alike : Alike Like (toEnd fetch r s) (toEnd fetch' r s') := by
  obtain ⟨hresult, hlike⟩ := hf fetchSize s s' hs
  unfold toEnd
  split
  · rcases hx : fetch fetchSize s with ⟨result, t⟩
    rcases hx' : fetch' fetchSize s' with ⟨result', t'⟩
    rw [hx, hx'] at hresult hlike
    cases hresult
    cases result with
    | pending | failed => exact ⟨rfl, rfl, hlike⟩
    | bytes data =>
      dsimp only
      split <;> exact ⟨rfl, rfl, hlike⟩
  · exact ⟨rfl, rfl, hs⟩

/-- Some bytes are read alike from supplies that are. -/
theorem upTo_alike (count : Nat) : Alike Like (upTo fetch count r s) (upTo fetch' count r s') := by
  obtain ⟨hresult, hlike⟩ := hf (max count fetchSize) s s' hs
  unfold upTo
  split
  · exact ⟨rfl, rfl, hs⟩
  · split
    · exact ⟨rfl, rfl, hs⟩
    · rcases hx : fetch (max count fetchSize) s with ⟨result, t⟩
      rcases hx' : fetch' (max count fetchSize) s' with ⟨result', t'⟩
      rw [hx, hx'] at hresult hlike
      cases hresult
      cases result <;> exact ⟨rfl, rfl, hlike⟩

omit hf hs

variable {r} {r' : LineReader}

/-- A reader that has to wait has nothing, and its supply has nothing for it. -/
theorem line_waits (h : line fetch r s = (.blocked, r', s')) : r' = r ∧ ∃ n, fetch n s = (.pending, s') := by
  unfold line at h
  split at h
  · split at h
    · cases h
      exact ⟨rfl, _, ‹_›⟩
    · cases h
    · split at h
      · split at h <;> cases h
      · cases h
  · split at h <;> cases h

/-- Whoever waits for the end waits at the supply, and keeps what it read. -/
theorem toEnd_waits (h : toEnd fetch r s = (.blocked, r', s')) : r' = r ∧ ∃ n, fetch n s = (.pending, s') := by
  unfold toEnd at h
  split at h
  · split at h
    · cases h
      exact ⟨rfl, _, ‹_›⟩
    · cases h
    · split at h <;> cases h
  · cases h

/-- Whoever waits for some bytes waits at the supply, and keeps what it read. -/
theorem upTo_waits {count : Nat} (h : upTo fetch count r s = (.blocked, r', s')) :
    r' = r ∧ ∃ n, fetch n s = (.pending, s') := by
  unfold upTo at h
  split at h
  · cases h
  · split at h
    · cases h
    · split at h
      · cases h
        exact ⟨rfl, _, ‹_›⟩
      · cases h
      · cases h

end LineReader

/-! ## Channels -/

/-- The channels are the same but for who is parked. -/
structure Channel.Like (c c' : Channel) : Prop where
  pipe : c.pipe.Like c'.pipe
  values : c.values = c'.values
  reader : c.reader = c'.reader
  outlets : c.outlets = c'.outlets

/-- An input that is empty for good. -/
def Channel.idle : Channel := .closedWith [] []

namespace Channel

variable {c c' c'' : Channel} {who who' : Waker}

/-- Results that are the same, with channels that are alike. -/
abbrev Agree {α : Type} (x x' : α × Channel) : Prop := x.1 = x'.1 ∧ x.2.Like x'.2

/-- Results of steps towards an item that are the same, with channels that are alike. -/
abbrev AgreeOnItem {α β : Type} (x x' : α × β × Channel) : Prop := x.1 = x'.1 ∧ x.2.1 = x'.2.1 ∧ x.2.2.Like x'.2.2

namespace Like

theorem refl (c : Channel) : c.Like c := ⟨rfl, rfl, rfl, rfl⟩

theorem symm (h : c.Like c') : c'.Like c := ⟨h.pipe.symm, h.values.symm, h.reader.symm, h.outlets.symm⟩

theorem trans (h : c.Like c') (h' : c'.Like c'') : c.Like c'' :=
  ⟨h.pipe.trans h'.pipe, h.values.trans h'.values, h.reader.trans h'.reader, h.outlets.trans h'.outlets⟩

/-- Ends are dropped alike from channels that are alike, and so the following say of what can be done with them. -/
theorem dropOutlet (h : c.Like c') : c.dropOutlet.Like c'.dropOutlet := by
  refine ⟨?_, congrArg ValueQueue.releaseSender h.values, h.reader, congrArg (· - 1) h.outlets⟩
  unfold Channel.dropOutlet
  rw [h.outlets]
  split
  · exact h.pipe.releaseWriter
  · exact h.pipe

theorem dropInlet (h : c.Like c') : c.dropInlet.Like c'.dropInlet :=
  ⟨h.pipe.dropReader, congrArg ValueQueue.dropReceiver h.values, rfl, h.outlets⟩

theorem write (h : c.Like c') (who who' : Waker) (data : Bytes) : Agree (c.write who data) (c'.write who' data) :=
  ⟨(h.pipe.write who who' data).1, (h.pipe.write who who' data).2, h.values, h.reader, h.outlets⟩

theorem put (h : c.Like c') (v : Value) : Agree (c.put v) (c'.put v) := by
  unfold Channel.put
  rw [h.values]
  exact ⟨rfl, h.pipe, rfl, h.reader, h.outlets⟩

theorem recv (h : c.Like c') : Agree c.recv c'.recv := by
  unfold Channel.recv
  rw [h.values]
  exact ⟨rfl, h.pipe, rfl, h.reader, h.outlets⟩

/-- A step of the readers. -/
theorem reading {α : Type} (h : c.Like c') {step step' : LineReader → BytePipe → Step α × LineReader × BytePipe}
    (hstep : ∀ r p p', p.Like p' → LineReader.Alike BytePipe.Like (step r p) (step' r p')) :
    Agree (c.reading step) (c'.reading step') := by
  obtain ⟨hresult, hreader, hpipe⟩ := hstep c.reader c.pipe c'.pipe h.pipe
  unfold Channel.reading
  rw [← h.reader]
  exact ⟨hresult, hpipe, h.values, hreader, h.outlets⟩

theorem line (h : c.Like c') (who who' : Waker) : Agree (c.line who) (c'.line who') :=
  h.reading fun r _ _ hp => LineReader.line_alike (fun n _ _ hp => hp.fetch who who' n) hp r

theorem toEnd (h : c.Like c') (who who' : Waker) : Agree (c.toEnd who) (c'.toEnd who') :=
  h.reading fun r _ _ hp => LineReader.toEnd_alike (fun n _ _ hp => hp.fetch who who' n) hp r

theorem upTo (h : c.Like c') (who who' : Waker) (count : Nat) : Agree (c.upTo who count) (c'.upTo who' count) :=
  h.reading fun r _ _ hp => LineReader.upTo_alike (fun n _ _ hp => hp.fetch who who' n) hp r count

theorem valueItem (h : c.Like c') (m : Merging) : AgreeOnItem (c.valueItem m) (c'.valueItem m) := by
  obtain ⟨hresult, hlike⟩ := h.recv
  unfold Channel.valueItem
  rcases hx : c.recv with ⟨result, d⟩
  rcases hx' : c'.recv with ⟨result', d'⟩
  rw [hx, hx'] at hresult hlike
  cases hresult
  split
  · cases result <;> exact ⟨rfl, rfl, hlike⟩
  · exact ⟨rfl, rfl, h⟩

theorem lineItem (h : c.Like c') (who who' : Waker) (m : Merging) : AgreeOnItem (c.lineItem who m) (c'.lineItem who' m) := by
  obtain ⟨hresult, hlike⟩ := h.line who who'
  unfold Channel.lineItem
  rcases hx : c.line who with ⟨result, d⟩
  rcases hx' : c'.line who' with ⟨result', d'⟩
  rw [hx, hx'] at hresult hlike
  cases hresult
  split
  · rcases result with _ | _ | ⟨_ | _⟩ | _ <;> exact ⟨rfl, rfl, hlike⟩
  · exact ⟨rfl, rfl, h⟩

/-- An item of both streams; of two that are there the value comes first. -/
theorem item (h : c.Like c') (who who' : Waker) (m : Merging) :
    AgreeOnItem (c.item .values who m) (c'.item .values who' m) := by
  unfold Channel.item
  split
  · exact ⟨rfl, rfl, h⟩
  · obtain ⟨hresult, hmerging, hlike⟩ := h.valueItem m
    rcases hx : c.valueItem m with ⟨result, m₁, d⟩
    rcases hx' : c'.valueItem m with ⟨result', m₁', d'⟩
    rw [hx, hx'] at hresult hmerging hlike
    cases hresult
    cases hmerging
    cases result with
    | blocked => exact hlike.lineItem who who' m₁
    | more | done | failed => exact ⟨rfl, rfl, hlike⟩

end Like

/-! ### Waiting -/

/-- Whoever waits to read leaves the channel alike. -/
theorem reading_blocked {α : Type} {step : LineReader → BytePipe → Step α × LineReader × BytePipe}
    (hstep : ∀ {r r' p p'}, step r p = (.blocked, r', p') → r' = r ∧ p'.Like p) (h : c.reading step = (.blocked, c')) :
    c'.Like c := by
  unfold Channel.reading at h
  rcases hx : step c.reader c.pipe with ⟨result, r, p⟩
  rw [hx] at h
  cases h
  obtain ⟨hreader, hpipe⟩ := hstep hx
  exact ⟨hpipe, rfl, hreader, rfl⟩

/-- Whoever has to wait for a line is parked, and nothing else. -/
theorem line_blocked (h : c.line who = (.blocked, c')) : c'.Like c := by
  refine reading_blocked (fun hstep => ?_) h
  obtain ⟨hreader, _, hfetch⟩ := LineReader.line_waits hstep
  exact ⟨hreader, BytePipe.fetch_pending hfetch⟩

/-- Whoever waits for the end leaves the channel alike. -/
theorem toEnd_blocked (h : c.toEnd who = (.blocked, c')) : c'.Like c := by
  refine reading_blocked (fun hstep => ?_) h
  obtain ⟨hreader, _, hfetch⟩ := LineReader.toEnd_waits hstep
  exact ⟨hreader, BytePipe.fetch_pending hfetch⟩

theorem upTo_blocked {count : Nat} (h : c.upTo who count = (.blocked, c')) : c'.Like c := by
  refine reading_blocked (fun hstep => ?_) h
  obtain ⟨hreader, _, hfetch⟩ := LineReader.upTo_waits hstep
  exact ⟨hreader, BytePipe.fetch_pending hfetch⟩

/-- Whoever waits for a value leaves the channel alike. -/
theorem recv_pending (h : c.recv = (.pending, c')) : c'.Like c := by
  unfold Channel.recv ValueQueue.recv at h
  split at h
  rename_i heq
  split at heq
  · cases heq
    cases h
  · split at heq <;> cases heq <;> cases h
    exact .refl c

/-- Whoever waits to write leaves the channel alike. -/
theorem write_pending {data : Bytes} (h : c.write who data = (.pending, c')) : c'.Like c := by
  unfold Channel.write at h
  rcases hx : c.pipe.write who data with ⟨result, pipe⟩
  rw [hx] at h
  cases h
  exact ⟨BytePipe.write_pending hx, rfl, rfl, rfl⟩

/-- Whoever waits to put a value leaves the channel alike. -/
theorem put_pending {v : Value} (h : c.put v = (.pending, c')) : c'.Like c := by
  unfold Channel.put ValueQueue.put at h
  split at h
  rename_i heq
  split at heq
  · cases heq
    cases h
  · split at heq <;> cases heq <;> cases h
    exact .refl c

/-- Whoever waits for an item leaves the channel alike, and its turns are as they were. -/
theorem valueItem_blocked {m m' : Merging} (h : c.valueItem m = (.blocked, m', c')) : m' = m ∧ c'.Like c := by
  unfold Channel.valueItem at h
  split at h
  · split at h
    · cases h
    · cases h
    · rename_i hrecv
      cases h
      exact ⟨rfl, recv_pending hrecv⟩
  · cases h
    exact ⟨rfl, .refl c⟩

theorem lineItem_blocked {m m' : Merging} (h : c.lineItem who m = (.blocked, m', c')) : m' = m ∧ c'.Like c := by
  unfold Channel.lineItem at h
  split at h
  · split at h
    · cases h
    · cases h
    · cases h
    · cases h
    · rename_i hline
      cases h
      exact ⟨rfl, line_blocked hline⟩
  · cases h
    exact ⟨rfl, .refl c⟩

theorem item_blocked {m m' : Merging} (h : c.item .values who m = (.blocked, m', c')) : m' = m ∧ c'.Like c := by
  unfold Channel.item at h
  split at h
  · cases h
  · dsimp only at h
    rcases hx : c.valueItem m with ⟨result, m₁, d⟩
    rw [hx] at h
    cases result with
    | blocked =>
      obtain ⟨rfl, hd⟩ := valueItem_blocked hx
      obtain ⟨rfl, hc⟩ := lineItem_blocked h
      exact ⟨rfl, hc.trans hd⟩
    | more | done | failed => cases h

/-! ### Inputs that are empty for good -/

/-- An input that is empty for good stays so. -/
theorem idle_line (h : c.Like idle) : (c.line who).2.Like idle := (h.line who 0).2

theorem idle_toEnd (h : c.Like idle) : (c.toEnd who).2.Like idle := (h.toEnd who 0).2

theorem idle_upTo (h : c.Like idle) (count : Nat) : (c.upTo who count).2.Like idle := by
  have hidle : (idle.upTo 0 count).2.Like idle := ⟨rfl, rfl, congrArg (LineReader.mk []) List.drop_nil, rfl⟩
  exact (h.upTo who 0 count).2.trans hidle

theorem idle_item (h : c.Like idle) (m : Merging) : (c.item .values who m).2.2.Like idle := by
  have hidle : (idle.item .values 0 m).2.2.Like idle := by
    obtain ⟨valuesOpen, linesOpen⟩ := m
    cases valuesOpen <;> cases linesOpen <;> exact .refl idle
  exact (h.item who 0 m).2.2.trans hidle

end Channel

end DualShell
