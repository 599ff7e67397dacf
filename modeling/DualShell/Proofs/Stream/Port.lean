import Mathlib.Data.List.Forall2
import DualShell.Machine.World
import DualShell.Proofs.Stream.Traffic

/-!
# Reading at a port

The reading side of a descriptor is the consumer's end of a channel, or an open file. Its bytes are in three places:
those that a read that was given up had looked at, those fetched and not looked at, and those that the supply still
holds. Three kinds of reads share them.

A step of a read that does not complete it moves bytes between the places and takes none; the one that completes it
takes the front of all three (`LineReader.line_moves`, `toEnd_moves`, `upTo_moves`). So a port is a queue of bytes,
whatever reads there are, given up or completed, in whatever order with what arrives (`Port.lossless`).
-/

namespace DualShell

/-! ## What reads take -/

/-- What reading a line takes when `rest` is left behind it: up to a newline, or up to the end; and no line only if
nothing is there. -/
def lineTakes : Option String → (raw rest : Bytes) → Prop
  | none, raw, rest => raw = [] ∧ rest = []
  | some text, raw, rest =>
    (∃ front, raw = front ++ [10] ∧ text = endedLine front) ∨ (raw ≠ [] ∧ rest = [] ∧ text = Utf8.decodeLenient raw)

/-- What reading to the end takes: everything. -/
def endTakes (data raw rest : Bytes) : Prop :=
  raw = data ∧ rest = []

/-- What reading at most `count` bytes takes: as many at most, and none only at the end. -/
def pieceTakes (count : Nat) (data raw rest : Bytes) : Prop :=
  raw = data ∧ data.length ≤ count ∧ (0 < count → data = [] → rest = [])

/-- A step of a read leaves all that is unread, or completes the read and takes the front of it. -/
def Step.Moves {α : Type} (takes : α → (raw rest : Bytes) → Prop) (unread unread' : Bytes) : Step α → Prop
  | .done a => ∃ raw, unread = raw ++ unread' ∧ takes a raw unread'
  | .blocked | .more | .failed _ => unread' = unread

/-- Whether a step completes its read. -/
def Step.isDone {α : Type} : Step α → Bool
  | .done _ => true
  | .blocked | .more | .failed _ => false

/-- A step that is not done takes nothing. -/
theorem Step.Moves.same {α : Type} {takes : α → Bytes → Bytes → Prop} {unread unread' : Bytes} {step : Step α}
    (h : step.Moves takes unread unread') (hdone : step.isDone = false) : unread' = unread := by
  cases step with
  | done a => nomatch hdone
  | blocked => exact h
  | more => exact h
  | failed cause => exact h

/-- A step takes what it takes, whatever is made of it. -/
theorem Step.Moves.map {α β : Type} {takes : α → Bytes → Bytes → Prop} {takes' : β → Bytes → Bytes → Prop} {f : α → β}
    {unread unread' : Bytes} {step : Step α} (h : step.Moves takes unread unread') (hf : ∀ a, takes a = takes' (f a)) :
    (step.map f).Moves takes' unread unread' := by
  cases step with
  | done a =>
    obtain ⟨raw, hraw, htakes⟩ := h
    exact ⟨raw, hraw, hf a ▸ htakes⟩
  | blocked => exact h
  | more => exact h
  | failed cause => exact h

/-! ## Supplies -/

/-- A supply hands out the front of what is to come, and nothing only when nothing is to come. -/
structure Supplies {σ : Type} (fetch : Nat → σ → Fetch × σ) (coming : σ → Bytes) : Prop where
  bytes : ∀ {count s data s'}, 0 < count → fetch count s = (.bytes data, s') →
    coming s = data ++ coming s' ∧ (data = [] → coming s' = [])
  pending : ∀ {count s s'}, fetch count s = (.pending, s') → coming s' = coming s
  failed : ∀ {count s cause s'}, fetch count s = (.failed cause, s') → coming s' = coming s

/-- What a pipe holds. -/
def BytePipe.coming (p : BytePipe) : Bytes := p.buffer.toList

/-- A pipe supplies the bytes that wait in it. -/
theorem BytePipe.supplies (who : Waker) : Supplies (BytePipe.fetch who) BytePipe.coming where
  bytes {count p data p'} hcount hfetch := by
    rcases BytePipe.read_cases (p := p) (w := who) hcount with ⟨hnil, -, hread⟩ | ⟨-, -, hread⟩ | ⟨hne, hread⟩ <;>
      rw [BytePipe.fetch, hread] at hfetch
    · obtain ⟨hdata, rfl⟩ := Prod.mk.inj hfetch
      cases hdata
      exact ⟨rfl, fun _ => hnil⟩
    · nomatch hfetch
    · obtain ⟨hdata, rfl⟩ := Prod.mk.inj hfetch
      cases hdata
      refine ⟨?_, fun h => absurd h hne⟩
      simp only [BytePipe.coming, Queue.toList_take_snd, List.take_append_drop]
  pending {count p p'} hfetch := by
    unfold BytePipe.fetch at hfetch
    split at hfetch
    · rename_i hread
      unfold BytePipe.read at hread
      split at hread
      · split at hread
        · nomatch hread
        · obtain ⟨-, rfl⟩ := Prod.mk.inj hread
          obtain ⟨-, rfl⟩ := Prod.mk.inj hfetch
          rfl
      · nomatch hread
    · nomatch hfetch
  failed {count p cause p'} hfetch := by
    unfold BytePipe.fetch at hfetch
    split at hfetch <;> nomatch hfetch

/-- What a write gets rid of joins what the pipe holds. -/
theorem BytePipe.write_coming {p : BytePipe} {who : Waker} {data : Bytes} {n : Nat}
    (h : (p.write who data).1 = .accepted n) : (p.write who data).2.coming = p.coming ++ data.take n := by
  unfold BytePipe.write at h ⊢
  split at h
  · rename_i hempty
    have hnil : data = [] := by simpa using hempty
    simp [hnil]
  split at h
  · nomatch h
  split at h
  · nomatch h
  · cases h
    rename_i hempty halive hroom
    simp [hempty, halive, hroom, BytePipe.coming]

/-- A write that is not accepted leaves what the pipe holds. -/
theorem BytePipe.refused_coming {p : BytePipe} {who : Waker} {data : Bytes}
    (h : (p.write who data).1 = .pending ∨ (p.write who data).1 = .broken) : (p.write who data).2.coming = p.coming := by
  unfold BytePipe.write at h ⊢
  split
  · rfl
  split
  · rfl
  split
  · exact congrArg Queue.toList BytePipe.parkWriter_buffer
  · rename_i hempty halive hroom
    simp [hempty, halive, hroom] at h

/-- The rest of an open file. -/
def OpenFile.coming (files : FileTree) (h : OpenFile) : Bytes :=
  match files.contentAt h.place with
  | .ok content => content.drop h.offset
  | .error _ => []

/-- A file supplies what is left of its contents. -/
theorem OpenFile.supplies (files : FileTree) : Supplies (World.fetchFile files) (OpenFile.coming files) where
  bytes {count h data h'} hcount hfetch := by
    unfold World.fetchFile at hfetch
    split at hfetch
    · rename_i content hcontent
      obtain ⟨hdata, rfl⟩ := Prod.mk.inj hfetch
      cases hdata
      -- The offset moves by what was there, not by what was asked for.
      have hdrop : (content.drop h.offset).drop ((content.drop h.offset).take count).length =
        (content.drop h.offset).drop count := by
        rcases Nat.le_total count (content.drop h.offset).length with hle | hle
        · rw [List.length_take, Nat.min_eq_left hle]
        · rw [List.length_take, Nat.min_eq_right hle, List.drop_length, List.drop_eq_nil_of_le hle]
      simp only [OpenFile.coming, hcontent, ← List.drop_drop, hdrop]
      refine ⟨(List.take_append_drop count _).symm, fun hnil => ?_⟩
      rcases List.take_eq_nil_iff.1 hnil with hzero | hnil
      · omega
      · rw [hnil, List.drop_nil]
    · nomatch hfetch
  pending {count h h'} hfetch := by
    unfold World.fetchFile at hfetch
    split at hfetch <;> nomatch hfetch
  failed {count h cause h'} hfetch := by
    unfold World.fetchFile at hfetch
    split at hfetch
    · nomatch hfetch
    · obtain ⟨-, rfl⟩ := Prod.mk.inj hfetch
      rfl

/-! ## One step of a read -/

/-- Bytes are split at their first newline. -/
theorem splitLine_eq_some {bytes front rest : Bytes} (h : splitLine bytes = some (front, rest)) :
    bytes = front ++ 10 :: rest := by
  induction bytes generalizing front rest with
  | nil => nomatch h
  | cons b bs ih =>
    unfold splitLine at h
    split at h
    · rename_i hb
      obtain ⟨rfl, rfl⟩ := Prod.mk.inj (Option.some.inj h)
      rw [beq_iff_eq.1 hb, List.nil_append]
    · split at h
      · nomatch h
      · rename_i line rest' hrest
        obtain ⟨rfl, rfl⟩ := Prod.mk.inj (Option.some.inj h)
        rw [ih hrest, List.cons_append]

namespace LineReader

variable {σ : Type} {fetch : Nat → σ → Fetch × σ} {coming : σ → Bytes}

/-- A step towards a line takes bytes from the front. -/
theorem line_moves (h : Supplies fetch coming) (r : LineReader) (s : σ) :
    (line fetch r s).1.Moves lineTakes (r.held ++ coming s) ((line fetch r s).2.1.held ++ coming (line fetch r s).2.2) := by
  unfold line
  split
  · rename_i hahead
    have hahead : r.ahead = [] := by simpa using hahead
    split
    · rename_i hfetch
      exact congrArg (r.held ++ ·) (h.pending hfetch)
    · rename_i hfetch
      exact congrArg (r.held ++ ·) (h.failed hfetch)
    · rename_i data s' hfetch
      obtain ⟨hcoming, hend⟩ := h.bytes (by decide) hfetch
      split
      · rename_i hdata
        have hnil : data = [] := by simpa using hdata
        have hcoming' := hend hnil
        rw [hcoming, hcoming', hnil]
        split
        · rename_i hstarted
          have hstarted : r.started = [] := by simpa using hstarted
          exact ⟨[], by simp [hcoming'], rfl, by simp [held, hstarted, hahead, hcoming']⟩
        · rename_i hstarted
          exact ⟨r.started.reverse, by simp [held, hahead, hcoming'],
            .inr ⟨by simpa using hstarted, by simp [held, hahead, hcoming'], rfl⟩⟩
      · simp [Step.Moves, held, hahead, hcoming]
  · split
    · rename_i front rest hsplit
      refine ⟨r.started.reverse ++ front ++ [10], ?_, .inl ⟨r.started.reverse ++ front, rfl, by simp [pass]⟩⟩
      simp [held, splitLine_eq_some hsplit]
    · simp [Step.Moves, held, pass]

/-- A step towards the end takes bytes from the front. -/
theorem toEnd_moves (h : Supplies fetch coming) (r : LineReader) (s : σ) :
    (toEnd fetch r s).1.Moves endTakes (r.held ++ coming s) ((toEnd fetch r s).2.1.held ++
      coming (toEnd fetch r s).2.2) := by
  unfold toEnd
  split
  · rename_i hahead
    have hahead : r.ahead = [] := by simpa using hahead
    split
    · rename_i hfetch
      exact congrArg (r.held ++ ·) (h.pending hfetch)
    · rename_i hfetch
      exact congrArg (r.held ++ ·) (h.failed hfetch)
    · rename_i data s' hfetch
      obtain ⟨hcoming, hend⟩ := h.bytes (by decide) hfetch
      split
      · rename_i hdata
        have hnil : data = [] := by simpa using hdata
        have hcoming' := hend hnil
        rw [hcoming, hcoming', hnil]
        exact ⟨r.started.reverse, by simp [held, hahead], rfl, by simp [held, hahead]⟩
      · simp [Step.Moves, held, pass, hahead, hcoming]
  · simp [Step.Moves, held, pass]

/-- A step towards some bytes takes bytes from the front. -/
theorem upTo_moves (h : Supplies fetch coming) (count : Nat) (r : LineReader) (s : σ) :
    (upTo fetch count r s).1.Moves (pieceTakes count) (r.held ++ coming s)
      ((upTo fetch count r s).2.1.held ++ coming (upTo fetch count r s).2.2) := by
  unfold upTo
  split
  · rename_i hstarted
    have hstarted : r.started ≠ [] := by simpa using hstarted
    refine ⟨r.started.reverse.take count, ?_, rfl, List.length_take_le _ _, fun hcount hnil => ?_⟩
    · simp only [held, List.reverse_reverse]
      rw [← List.append_assoc, ← List.append_assoc, List.take_append_drop]
    · rcases List.take_eq_nil_iff.1 hnil with hzero | hnil
      · omega
      · exact absurd (List.reverse_eq_nil_iff.1 hnil) hstarted
  split
  · rename_i hstarted hahead
    have hstarted : r.started = [] := by simpa using hstarted
    have hahead : r.ahead ≠ [] := by simpa using hahead
    refine ⟨r.ahead.take count, ?_, rfl, List.length_take_le _ _, fun hcount hnil => ?_⟩
    · simp only [held, hstarted, List.reverse_nil, List.nil_append]
      rw [← List.append_assoc, List.take_append_drop]
    · rcases List.take_eq_nil_iff.1 hnil with hzero | hnil
      · omega
      · exact absurd hnil hahead
  · rename_i hstarted hahead
    have hstarted : r.started = [] := by simpa using hstarted
    have hahead : r.ahead = [] := by simpa using hahead
    split
    · rename_i hfetch
      exact congrArg (r.held ++ ·) (h.pending hfetch)
    · rename_i hfetch
      exact congrArg (r.held ++ ·) (h.failed hfetch)
    · rename_i data s' hfetch
      have hpos : 0 < max count fetchSize := Nat.lt_of_lt_of_le (by decide) (Nat.le_max_right _ _)
      obtain ⟨hcoming, hend⟩ := h.bytes hpos hfetch
      refine ⟨data.take count, ?_, rfl, List.length_take_le _ _, fun hcount hnil => ?_⟩
      · simp only [held, hstarted, hahead, List.reverse_nil, List.nil_append, hcoming]
        rw [← List.append_assoc, List.take_append_drop]
      · rcases List.take_eq_nil_iff.1 hnil with hzero | hnil
        · omega
        · simp [held, hstarted, hnil, hend hnil]

/-- Reading to the end from a supply that never holds it up: it goes on for a while, and then it has all that was unread. -/
theorem toEnd_completes {ready : σ → Prop} (h : Supplies fetch coming)
    (hready : ∀ count s, ready s → ∃ data s', fetch count s = (.bytes data, s') ∧ ready s') {n : Nat} :
    ∀ (r : LineReader) (s : σ), ready s → 2 * (coming s).length + r.ahead.length < n →
      ∃ before after, Relation.ReflTransGen (fun a b => toEnd fetch a.1 a.2 = (.more, b)) (r, s) before ∧
        toEnd fetch before.1 before.2 = (.done (r.held ++ coming s), after) ∧ after.1.held ++ coming after.2 = [] := by
  induction n with
  | zero => intro r s _ hn; omega
  | succ n ih =>
    intro r s hs hn
    have hmoves := toEnd_moves h r s
    by_cases hahead : r.ahead = []
    · obtain ⟨data, s', hfetch, hs'⟩ := hready fetchSize s hs
      obtain ⟨hcoming, -⟩ := h.bytes (by decide) hfetch
      by_cases hdata : data = []
      · have hstep : toEnd fetch r s = (.done r.started.reverse, { r with started := [] }, s') := by
          simp [toEnd, hahead, hfetch, hdata]
        rw [hstep] at hmoves
        obtain ⟨raw, hraw, rfl, hrest⟩ := hmoves
        rw [hrest, List.append_nil] at hraw
        exact ⟨_, _, .refl, hraw ▸ hstep, hrest⟩
      · have hstep : toEnd fetch r s = (.more, r.pass data, s') := by simp [toEnd, hahead, hfetch, hdata]
        rw [hstep] at hmoves
        have hless : 2 * (coming s').length + (r.pass data).ahead.length < n := by
          have hlength : 0 < data.length := List.length_pos_of_ne_nil hdata
          rw [hcoming, List.length_append] at hn
          simp only [pass]
          omega
        obtain ⟨before, after, hruns, hdone, hrest⟩ := ih (r.pass data) s' hs' hless
        have hsame : (r.pass data).held ++ coming s' = r.held ++ coming s := hmoves
        exact ⟨before, after, .head hstep hruns, hsame ▸ hdone, hrest⟩
    · have hstep : toEnd fetch r s = (.more, { r.pass r.ahead with ahead := [] }, s) := by simp [toEnd, hahead]
      rw [hstep] at hmoves
      have hless : 2 * (coming s).length + 0 < n := by
        have hlength : 0 < r.ahead.length := List.length_pos_of_ne_nil hahead
        omega
      obtain ⟨before, after, hruns, hdone, hrest⟩ := ih { r.pass r.ahead with ahead := [] } s hs hless
      have hsame : { r.pass r.ahead with ahead := [] }.held ++ coming s = r.held ++ coming s := hmoves
      exact ⟨before, after, .head hstep hruns, hsame ▸ hdone, hrest⟩

end LineReader

/-! ## Ports -/

/-- The reading side of a descriptor: the consumer's end of a channel, or an open file among the files. -/
inductive Port
  | channel (c : Channel)
  | file (files : FileTree) (h : OpenFile)

namespace Port

/-- The bytes that are at the port or still to be fetched by it, in order. -/
def unread : Port → Bytes
  | .channel c => c.reader.held ++ c.pipe.coming
  | .file files h => h.reader.held ++ h.coming files

/-- A step of a read. -/
def reading {α : Type} (onChannel : Channel → Step α × Channel) (onFile : FileTree → OpenFile → Step α × OpenFile) :
    Port → Step α × Port
  | .channel c => ((onChannel c).1, .channel (onChannel c).2)
  | .file files h => ((onFile files h).1, .file files (onFile files h).2)

/-- A step towards the next line. -/
def line (who : TaskId) : Port → Step (Option String) × Port :=
  reading (·.line who) fun files => World.readingFile (LineReader.line (World.fetchFile files))

/-- A step towards all bytes up to the end. -/
def toEnd (who : TaskId) : Port → Step Bytes × Port :=
  reading (·.toEnd who) fun files => World.readingFile (LineReader.toEnd (World.fetchFile files))

/-- A step towards at most `count` bytes. -/
def upTo (who : TaskId) (count : Nat) : Port → Step Bytes × Port :=
  reading (·.upTo who count) fun files => World.readingFile (LineReader.upTo (World.fetchFile files) count)

/-- Nothing holds a read up: every share of the producer's end is gone, or the file is there. -/
def Complete : Port → Prop
  | .channel c => c.pipe.writers = 0
  | .file files h => ∃ content, files.contentAt h.place = .ok content

end Port

/-- The port at an inlet. -/
def World.port? (w : World) : Inlet → Option Port
  | .channel c => w.channels[c]?.map .channel
  | .file h => w.handles[h]?.map (.file w.files)

/-- Reading at an inlet is reading at its port. -/
theorem World.reading_port {α : Type} {w : World} {inlet : Inlet} {p : Port} (onChannel : Channel → Step α × Channel)
    (onFile : FileTree → OpenFile → Step α × OpenFile) (h : w.port? inlet = some p) :
    (w.reading inlet onChannel (onFile w.files)).1 = (p.reading onChannel onFile).1 ∧
      (w.reading inlet onChannel (onFile w.files)).2.port? inlet = some (p.reading onChannel onFile).2 := by
  cases inlet with
  | channel c =>
    obtain ⟨channel, hc, rfl⟩ := Option.map_eq_some_iff.1 h
    obtain ⟨hlt, rfl⟩ := Array.getElem?_eq_some_iff.1 hc
    simp [World.reading, World.port?, Port.reading, hlt]
  | file f =>
    obtain ⟨handle, hf, rfl⟩ := Option.map_eq_some_iff.1 h
    obtain ⟨hlt, rfl⟩ := Array.getElem?_eq_some_iff.1 hf
    simp [World.reading, World.port?, Port.reading, hlt]

/-! ## Calls and arrivals -/

/-- The kinds of reads. -/
inductive Read
  | line
  | toEnd
  | upTo (count : Nat)

/-- A read that was completed, and its answer. -/
inductive Completed
  | line (text : Option String)
  | toEnd (data : Bytes)
  | upTo (count : Nat) (data : Bytes)

/-- What the read took, and what it left. -/
def Completed.Takes : Completed → (raw rest : Bytes) → Prop
  | .line text => lineTakes text
  | .toEnd data => endTakes data
  | .upTo count data => pieceTakes count data

/-- A step of a read. -/
def Port.step (who : TaskId) (p : Port) : Read → Step Completed × Port
  | .line => ((p.line who).1.map .line, (p.line who).2)
  | .toEnd => ((p.toEnd who).1.map .toEnd, (p.toEnd who).2)
  | .upTo count => ((p.upTo who count).1.map (.upTo count), (p.upTo who count).2)

/-- What happens at a port. -/
inductive PortEvent
  | arrived (data : Bytes)
  | completed (read : Completed)

/-- The bytes that arrived. -/
def PortEvent.arrivals : List PortEvent → Bytes
  | [] => []
  | .arrived data :: es => data ++ arrivals es
  | .completed _ :: es => arrivals es

namespace Port

/-- What others do at a port: bytes arrive at its end, or none. -/
inductive Gets : Port → Bytes → Port → Prop
  /-- A write of which some bytes were accepted. -/
  | write {c c' : Channel} {who : Waker} {data : Bytes} {n : Nat} (h : c.write who data = (.accepted n, c')) :
      Gets (.channel c) (data.take n) (.channel c')
  /-- A write that has to wait, or comes after the end. -/
  | refused {c c' : Channel} {who : Waker} {data : Bytes} {result : WritePoll} (h : c.write who data = (result, c'))
      (hresult : result = .pending ∨ result = .broken) : Gets (.channel c) [] (.channel c')
  | share {c : Channel} : Gets (.channel c) [] (.channel c.share)
  | dropOutlet {c : Channel} : Gets (.channel c) [] (.channel c.dropOutlet)
  | put {c : Channel} (v : Value) : Gets (.channel c) [] (.channel (c.put v).2)
  | recv {c : Channel} : Gets (.channel c) [] (.channel c.recv.2)
  /-- The files change, the one that is open only at its end. -/
  | grow {files files' : FileTree} {h : OpenFile} {content data : Bytes} (hold : files.contentAt h.place = .ok content)
      (hoffset : h.offset ≤ content.length) (hnew : files'.contentAt h.place = .ok (content ++ data)) :
      Gets (.file files h) data (.file files' h)

/-- Steps of reads and arrivals in any order. A read that is given up just takes no further step. -/
inductive Course (start : Port) : List PortEvent → Port → Prop
  | start : Course start [] start
  | arrived {es p p' data} (h : Course start es p) (hgets : p.Gets data p') : Course start (es ++ [.arrived data]) p'
  /-- A read goes on, has to wait or fails. -/
  | on {es p} (who : TaskId) (read : Read) (h : Course start es p) (hdone : (p.step who read).1.isDone = false) :
      Course start es (p.step who read).2
  | done {es p p' c} (who : TaskId) (read : Read) (h : Course start es p) (hstep : p.step who read = (.done c, p')) :
      Course start (es ++ [.completed c]) p'

/-! ## A port is a queue of bytes -/

/-- What a queue of bytes goes through: arrivals join at the end, and completed reads take what they take from the front. -/
inductive Queues : (unread : Bytes) → List PortEvent → (taken : List Bytes) → (rest : Bytes) → Prop
  | start {unread} : Queues unread [] [] unread
  | arrived {unread es taken rest data} (h : Queues unread es taken rest) :
      Queues unread (es ++ [.arrived data]) taken (rest ++ data)
  | completed {unread es taken raw rest c} (h : Queues unread es taken (raw ++ rest)) (htakes : Completed.Takes c raw rest) :
      Queues unread (es ++ [.completed c]) (taken ++ [raw]) rest

/-- Arrivals come in their order. -/
theorem arrivals_append (es es' : List PortEvent) :
    PortEvent.arrivals (es ++ es') = PortEvent.arrivals es ++ PortEvent.arrivals es' := by
  induction es with
  | nil => rfl
  | cons e es ih => cases e <;> simp [PortEvent.arrivals, ih]

/-- Nothing is lost, doubled or moved: what was taken and what is left are what was there and what arrived. -/
theorem Queues.flatten {unread rest : Bytes} {es : List PortEvent} {taken : List Bytes} (h : Queues unread es taken rest) :
    taken.flatten ++ rest = unread ++ PortEvent.arrivals es := by
  induction h with
  | start => simp [PortEvent.arrivals]
  | arrived h ih => rw [← List.append_assoc, ih, arrivals_append, List.append_assoc]; simp [PortEvent.arrivals]
  | completed h htakes ih =>
    rw [arrivals_append, PortEvent.arrivals, PortEvent.arrivals, List.append_nil, ← ih]
    simp

variable {start p p' : Port}

/-- A step of a read takes what it completes from the front. -/
theorem step_moves (who : TaskId) (p : Port) (read : Read) :
    (p.step who read).1.Moves Completed.Takes p.unread (p.step who read).2.unread := by
  cases read with
  | line =>
    refine Step.Moves.map (f := Completed.line) ?_ fun _ => rfl
    cases p with
    | channel c => exact LineReader.line_moves (BytePipe.supplies who) c.reader c.pipe
    | file files h => exact LineReader.line_moves (OpenFile.supplies files) h.reader h
  | toEnd =>
    refine Step.Moves.map (f := Completed.toEnd) ?_ fun _ => rfl
    cases p with
    | channel c => exact LineReader.toEnd_moves (BytePipe.supplies who) c.reader c.pipe
    | file files h => exact LineReader.toEnd_moves (OpenFile.supplies files) h.reader h
  | upTo count =>
    refine Step.Moves.map (f := Completed.upTo count) ?_ fun _ => rfl
    cases p with
    | channel c => exact LineReader.upTo_moves (BytePipe.supplies who) count c.reader c.pipe
    | file files h => exact LineReader.upTo_moves (OpenFile.supplies files) count h.reader h

/-- What others do adds to the end of what is unread. -/
theorem Gets.unread_eq {data : Bytes} (h : p.Gets data p') : p'.unread = p.unread ++ data := by
  cases h with
  | @write c c' who data n h =>
    obtain ⟨hresult, rfl⟩ := Prod.mk.inj h
    simp only [unread, List.append_assoc]
    exact congrArg (c.reader.held ++ ·) (BytePipe.write_coming hresult)
  | @refused c c' who data result h hresult =>
    obtain ⟨rfl, rfl⟩ := Prod.mk.inj h
    rw [List.append_nil]
    exact congrArg (c.reader.held ++ ·) (BytePipe.refused_coming hresult)
  | share => exact (List.append_nil _).symm
  | @dropOutlet c =>
    rw [List.append_nil]
    refine congrArg (c.reader.held ++ ·) ?_
    simp only [Channel.dropOutlet]
    split <;> rfl
  | put v => exact (List.append_nil _).symm
  | recv => exact (List.append_nil _).symm
  | @grow files files' h content data hold hoffset hnew =>
    simp only [unread, OpenFile.coming, hold, hnew, List.append_assoc]
    rw [List.drop_append_of_le_length hoffset]

/-- In every course a port is a queue of bytes. -/
theorem Course.queues {es : List PortEvent} (h : Course start es p) : ∃ taken, Queues start.unread es taken p.unread := by
  induction h with
  | start => exact ⟨[], .start⟩
  | arrived h hgets ih =>
    obtain ⟨taken, ih⟩ := ih
    rw [hgets.unread_eq]
    exact ⟨taken, ih.arrived⟩
  | on who read h hdone ih =>
    obtain ⟨taken, ih⟩ := ih
    exact ⟨taken, (step_moves who _ read).same hdone ▸ ih⟩
  | @done es p p' c who read h hstep ih =>
    obtain ⟨taken, ih⟩ := ih
    have hmoves := p.step_moves who read
    rw [hstep] at hmoves
    obtain ⟨raw, hraw, htakes⟩ := hmoves
    exact ⟨_, .completed (hraw ▸ ih) htakes⟩

/-- Fetching from a file has nothing to do with what was fetched before. -/
theorem toEnd_file (files : FileTree) (r : LineReader) (h : OpenFile) :
    World.readingFile (LineReader.toEnd (World.fetchFile files)) { h with reader := r } =
      ((LineReader.toEnd (World.fetchFile files) r h).1,
        { (LineReader.toEnd (World.fetchFile files) r h).2.2 with reader :=
          (LineReader.toEnd (World.fetchFile files) r h).2.1 }) := by
  unfold World.readingFile LineReader.toEnd World.fetchFile
  by_cases hahead : r.ahead = []
  · cases hcontent : files.contentAt h.place with
    | error e => simp [hahead]
    | ok content =>
      by_cases hdata : (content.drop h.offset).take fetchSize = []
      · simp [hahead, hdata]
      · simp [hahead, hdata]
  · simp [hahead]

/-- Reading to the end at a complete port goes on for a while, and then it has all that is unread. -/
theorem toEnd_completes (who : TaskId) (p : Port) (h : p.Complete) :
    ∃ before after, Relation.ReflTransGen (fun a b => a.toEnd who = (.more, b)) p before ∧
      before.toEnd who = (.done p.unread, after) ∧ after.unread = [] := by
  cases p with
  | channel c =>
    have hready (count : Nat) (pipe : BytePipe) (hpipe : pipe.writers = 0) :
        ∃ data pipe', BytePipe.fetch who count pipe = (.bytes data, pipe') ∧ pipe'.writers = 0 := by
      by_cases hsize : pipe.buffer.size = 0
      · exact ⟨[], pipe, by simp [BytePipe.fetch, BytePipe.read, hsize, hpipe], hpipe⟩
      · exact ⟨(pipe.buffer.take count).1, { pipe with buffer := (pipe.buffer.take count).2, parkedWriters := [] },
          by simp [BytePipe.fetch, BytePipe.read, hsize], hpipe⟩
    obtain ⟨before, after, hruns, hdone, hrest⟩ :=
      LineReader.toEnd_completes (BytePipe.supplies who) hready c.reader c.pipe h (Nat.lt_succ_self _)
    refine ⟨.channel { c with reader := before.1, pipe := before.2 }, .channel { c with reader := after.1, pipe := after.2 },
      hruns.lift (fun a => Port.channel { c with reader := a.1, pipe := a.2 }) fun a b hab => ?_, ?_, hrest⟩
    · simp [Function.onFun, toEnd, reading, Channel.toEnd, Channel.reading, hab]
    · simp [toEnd, reading, Channel.toEnd, Channel.reading, hdone, unread]
  | file files handle =>
    obtain ⟨content, hcontent⟩ := h
    have hready (count : Nat) (h : OpenFile) (hplace : h.place = handle.place) :
        ∃ data h', World.fetchFile files count h = (.bytes data, h') ∧ h'.place = handle.place :=
      ⟨(content.drop h.offset).take count, { h with offset := h.offset + ((content.drop h.offset).take count).length },
        by simp [World.fetchFile, hplace, hcontent], hplace⟩
    obtain ⟨before, after, hruns, hdone, hrest⟩ :=
      LineReader.toEnd_completes (OpenFile.supplies files) hready handle.reader handle rfl (Nat.lt_succ_self _)
    refine ⟨.file files { before.2 with reader := before.1 }, .file files { after.2 with reader := after.1 },
      hruns.lift (fun a => Port.file files { a.2 with reader := a.1 }) fun a b hab => ?_, ?_, hrest⟩
    · simp only [Function.onFun, toEnd, reading, toEnd_file, hab]
    · simp only [toEnd, reading, toEnd_file, hdone, unread]

/-! ## Main result -/

/-- Whatever reads are begun, given up and completed at a port, in whatever order with what arrives: the completed ones
took bytes from the front of a queue that arrivals join at its end, so what they took and what is unread is what was
there at first and what arrived; and all that is unread is delivered by a read to the end once nothing more comes. -/
theorem lossless {es : List PortEvent} (h : Course start es p) :
    (∃ taken, Queues start.unread es taken p.unread ∧ taken.flatten ++ p.unread = start.unread ++ PortEvent.arrivals es) ∧
      ∀ who, p.Complete →
        ∃ before after, Relation.ReflTransGen (fun a b => a.toEnd who = (.more, b)) p before ∧
          before.toEnd who = (.done p.unread, after) ∧ after.unread = [] := by
  obtain ⟨taken, hqueues⟩ := h.queues
  exact ⟨⟨taken, hqueues, hqueues.flatten⟩, fun who => p.toEnd_completes who⟩

/-- A line is given up before its newline comes. When it has come the line is read, and the rest is there for the next
read. -/
theorem lossless_interrupted : ∃ p, Course (.channel (.create 64 4))
      [.arrived [97, 98], .arrived [99, 10, 100], .completed (.line (some (endedLine [97, 98, 99])))] p ∧
    p.unread = [100] ∧ ∃ taken : List Bytes, taken.flatten ++ p.unread = [97, 98, 99, 10, 100] := by
  have hfirst := Course.start.arrived (@Gets.write (.create 64 4) _ 0 [97, 98] 2 rfl)
  have hgivenUp := ((hfirst.on 1 .line rfl).on 1 .line rfl).on 1 .line rfl
  have hsecond := hgivenUp.arrived (@Gets.write _ _ 0 [99, 10, 100] 3 rfl)
  have hcourse := (hsecond.on 1 .line rfl).done 1 .line rfl
  obtain ⟨⟨taken, -, hflatten⟩, -⟩ := lossless hcourse
  exact ⟨_, hcourse, rfl, taken, hflatten⟩

end Port

end DualShell
