import Mathlib.Data.List.Basic
import Mathlib.Logic.Relation
import DualShell.Stream.BytePipe

/-!
# Traffic through a byte pipe

Any number of writers, each with a handle of its own, send their data through one pipe: each writes what it has left
until nothing is left, and drops its handle. One reader reads pieces of any positive sizes until it sees the end. They
take turns in any order, one write or one read at a time, and a handle can be cloned for a new writer at any time.

What was read and what is buffered is a merge of what was sent (`Traffic.Kept`), and every turn keeps it so. When the
reader sees the end, all that was given to the writers has arrived (`Traffic.delivered`).
-/

namespace DualShell

/-- The whole holds the bytes of every row, each once, and those of a row in their order: every byte can be told the row
it is from. -/
def Merge (rows : List Bytes) (whole : Bytes) : Prop :=
  ∃ told : List (Nat × UInt8), told.map (·.2) = whole ∧ (∀ b ∈ told, b.1 < rows.length) ∧
    ∀ i row, rows[i]? = some row → (told.filter (·.1 == i)).map (·.2) = row

/-- A writer: what it was given to send, and what it has not written yet. -/
structure Sender where
  data : Bytes
  left : Bytes

/-- A writer that was just given its data. -/
def Sender.fresh (data : Bytes) : Sender := ⟨data, data⟩

/-- The writer after a write of what it had left. -/
def Sender.wrote (s : Sender) : WritePoll → Sender
  | .accepted n => { s with left := s.left.drop n }
  | .pending | .broken => s

/-- Whether a write came back. -/
def WritePoll.isReady : WritePoll → Bool
  | .pending => false
  | .broken | .accepted _ => true

/-- Whether a read came back. -/
def ReadPoll.isReady : ReadPoll → Bool
  | .pending => false
  | .bytes _ => true

/-- What a read gave. -/
def ReadPoll.data : ReadPoll → Bytes
  | .pending => []
  | .bytes data => data

/-- A pipe in use: its handles and their writers, number by number, what the reader got, and whether it saw the end. -/
structure Traffic where
  ends : PipeEnds
  senders : List Sender
  received : Bytes
  ended : Bool

namespace Traffic

/-- A pipe of a capacity with its first writer. -/
def start (capacity : Nat) (data : Bytes) : Traffic :=
  ⟨.create capacity, [.fresh data], [], false⟩

/-- One turn, and whether it got somewhere: a poll that is not pending, or the drop of a handle. -/
inductive Turn (t : Traffic) : Bool → Traffic → Prop
  | write {i : Nat} {sender : Sender} {result : WritePoll} {ends : PipeEnds} (w : Waker)
      (hlive : t.ends.handles[i]? = some HandleState.live) (hsender : t.senders[i]? = some sender) (hleft : sender.left ≠ [])
      (hwrite : t.ends.write w sender.left = (result, ends)) :
      Turn t result.isReady { t with ends, senders := t.senders.set i (sender.wrote result) }
  | drop {i : Nat} {sender : Sender} (hlive : t.ends.handles[i]? = some HandleState.live)
      (hsender : t.senders[i]? = some sender) (hleft : sender.left = []) : Turn t true { t with ends := t.ends.drop i }
  | read {count : Nat} {result : ReadPoll} {ends : PipeEnds} (w : Waker) (hcount : 0 < count) (hended : t.ended = false)
      (hread : t.ends.read w count = (result, ends)) :
      Turn t result.isReady { t with ends, received := t.received ++ result.data, ended := result == .bytes [] }
  /-- Not a turn of a party: a handle in use is cloned for a new writer. -/
  | clone {i : Nat} (data : Bytes) (hlive : t.ends.handles[i]? = some HandleState.live) :
      Turn t false { t with ends := t.ends.clone.2, senders := t.senders ++ [.fresh data] }

/-- Turns, one after the other. -/
def Runs : Traffic → Traffic → Prop :=
  Relation.ReflTransGen fun t t' => ∃ ready, t.Turn ready t'

end Traffic

/-! ## What was sent -/

/-- The bytes are a merge of what the writers have written. -/
def Sent (senders : List Sender) (whole : Bytes) : Prop :=
  ∃ told : List (Nat × UInt8), told.map (·.2) = whole ∧ (∀ b ∈ told, b.1 < senders.length) ∧
    ∀ i sender, senders[i]? = some sender → (told.filter (·.1 == i)).map (·.2) ++ sender.left = sender.data

namespace Sent

variable {senders : List Sender} {whole : Bytes}

/-- A fresh sender has sent nothing. -/
theorem start (data : Bytes) : Sent [.fresh data] [] := by
  refine ⟨[], rfl, by simp, fun i sender h => ?_⟩
  have hfresh : sender = .fresh data := List.mem_singleton.1 (List.mem_of_getElem? h)
  subst hfresh
  rfl

/-- A new writer has written nothing. -/
theorem clone (h : Sent senders whole) (data : Bytes) : Sent (senders ++ [.fresh data]) whole := by
  obtain ⟨told, hwhole, hbound, hrows⟩ := h
  refine ⟨told, hwhole, fun b hb => ?_, fun i sender hi => ?_⟩
  · have := hbound b hb
    simp only [List.length_append, List.length_singleton]
    omega
  · rw [List.getElem?_append] at hi
    split at hi
    · exact hrows i sender hi
    · rename_i hlength
      have hfresh : sender = .fresh data := List.mem_singleton.1 (List.mem_of_getElem? hi)
      have hnone : told.filter (·.1 == i) = [] := by
        refine List.filter_eq_nil_iff.2 fun b hb heq => ?_
        have := hbound b hb
        simp only [beq_iff_eq] at heq
        omega
      rw [hfresh, hnone]
      rfl

/-- What a writer gets rid of comes after all that was sent before. -/
theorem wrote {i : Nat} {sender : Sender} (h : Sent senders whole) (hi : senders[i]? = some sender) (n : Nat) :
    Sent (senders.set i { sender with left := sender.left.drop n }) (whole ++ sender.left.take n) := by
  obtain ⟨told, hwhole, hbound, hrows⟩ := h
  obtain ⟨hlength, -⟩ := List.getElem?_eq_some_iff.1 hi
  refine ⟨told ++ (sender.left.take n).map (i, ·), ?_, ?_, fun j other hj => ?_⟩
  · rw [List.map_append, hwhole, List.map_map]
    simp [Function.comp_def]
  · intro b hb
    rw [List.length_set]
    rcases List.mem_append.1 hb with hb | hb
    · exact hbound b hb
    · obtain ⟨-, -, rfl⟩ := List.mem_map.1 hb
      exact hlength
  · rw [List.filter_append, List.map_append]
    by_cases hij : i = j
    · subst hij
      rw [List.getElem?_set_self hlength] at hj
      obtain rfl := Option.some.inj hj
      have hmine : ((sender.left.take n).map (i, ·)).filter (·.1 == i) = (sender.left.take n).map (i, ·) :=
        List.filter_eq_self.2 fun b hb => by obtain ⟨-, -, rfl⟩ := List.mem_map.1 hb; simp
      have hback : ((sender.left.take n).map (i, ·)).map (·.2) = sender.left.take n := by simp [Function.comp_def]
      rw [hmine, hback, List.append_assoc, List.take_append_drop]
      exact hrows i sender hi
    · rw [List.getElem?_set_ne hij] at hj
      have hothers : ((sender.left.take n).map (i, ·)).filter (·.1 == j) = [] :=
        List.filter_eq_nil_iff.2 fun b hb => by obtain ⟨-, -, rfl⟩ := List.mem_map.1 hb; simpa using hij
      rw [hothers, List.map_nil, List.append_nil]
      exact hrows j other hj

/-- When every writer is done, all that was given to them has been sent. -/
theorem merge (h : Sent senders whole) (hdone : ∀ sender ∈ senders, sender.left = []) :
    Merge (senders.map (·.data)) whole := by
  obtain ⟨told, hwhole, hbound, hrows⟩ := h
  refine ⟨told, hwhole, by simpa using hbound, fun i row hi => ?_⟩
  rw [List.getElem?_map] at hi
  obtain ⟨sender, hsender, rfl⟩ := Option.map_eq_some_iff.1 hi
  have hrow := hrows i sender hsender
  rwa [hdone sender (List.mem_of_getElem? hsender), List.append_nil] at hrow

end Sent

/-! ## What one poll does to a pipe -/

namespace BytePipe

variable {p : BytePipe} {w : Waker}

/-- A write to a reader that is there parks the writer because the pipe is full, or takes a beginning of the data that
fits. -/
theorem write_cases {data : Bytes} (halive : p.readerAlive = true) (hdata : data ≠ []) :
    (p.room = 0 ∧ p.write w data = (.pending, p.parkWriter w)) ∨
      ∃ n, 0 < n ∧ n ≤ p.room ∧ n ≤ data.length ∧
        p.write w data = (.accepted n, { p with buffer := p.buffer.append (data.take n), parkedReader := none }) := by
  have hlength : 0 < data.length := List.length_pos_of_ne_nil hdata
  have hempty : data.isEmpty = false := by simpa using hdata
  by_cases hroom : p.room = 0
  · exact .inl ⟨hroom, by simp [write, hempty, halive, hroom]⟩
  · exact .inr ⟨min p.room data.length, by omega, by omega, by omega, by simp [write, hempty, halive, hroom]⟩

/-- A read finds the end, or parks the reader, or takes bytes from the front. -/
theorem read_cases {count : Nat} (hcount : 0 < count) :
    (p.buffer.toList = [] ∧ p.writers = 0 ∧ p.read w count = (.bytes [], p)) ∨
      (p.buffer.toList = [] ∧ p.writers ≠ 0 ∧ p.read w count = (.pending, { p with parkedReader := some w })) ∨
      (p.buffer.toList.take count ≠ [] ∧
        p.read w count = (.bytes (p.buffer.toList.take count),
          { p with buffer := (p.buffer.take count).2, parkedWriters := [] })) := by
  by_cases hsize : p.buffer.size = 0
  · have hnil : p.buffer.toList = [] := List.eq_nil_of_length_eq_zero (by rw [← Queue.size_eq_length, hsize])
    by_cases hwriters : p.writers = 0
    · exact .inl ⟨hnil, hwriters, by simp [read, hsize, hwriters]⟩
    · exact .inr (.inl ⟨hnil, hwriters, by simp [read, hsize, hwriters]⟩)
  · refine .inr (.inr ⟨fun hnil => ?_, by simp [read, hsize]⟩)
    have hlength := congrArg List.length hnil
    rw [List.length_take, ← Queue.size_eq_length, List.length_nil] at hlength
    omega

/-- To park a writer changes nothing else of a pipe. -/
@[simp] theorem parkWriter_buffer : (p.parkWriter w).buffer = p.buffer := by
  unfold parkWriter; split <;> rfl

@[simp] theorem parkWriter_readerAlive : (p.parkWriter w).readerAlive = p.readerAlive := by
  unfold parkWriter; split <;> rfl

@[simp] theorem parkWriter_capacity : (p.parkWriter w).capacity = p.capacity := by
  unfold parkWriter; split <;> rfl

@[simp] theorem parkWriter_writers : (p.parkWriter w).writers = p.writers := by
  unfold parkWriter; split <;> rfl

end BytePipe

/-- A handle writes as its pipe does. -/
theorem PipeEnds.write_eq {e : PipeEnds} {w : Waker} {data : Bytes} {result : WritePoll} {pipe : BytePipe}
    (h : e.pipe.write w data = (result, pipe)) : e.write w data = (result, { e with pipe }) := by
  rw [PipeEnds.write, h]

/-- A handle reads as its pipe does. -/
theorem PipeEnds.read_eq {e : PipeEnds} {w : Waker} {count : Nat} {result : ReadPoll} {pipe : BytePipe}
    (h : e.pipe.read w count = (result, pipe)) : e.read w count = (result, { e with pipe }) := by
  rw [PipeEnds.read, h]

/-! ## What every turn keeps -/

namespace Traffic

/-- What holds between the turns. -/
structure Kept (capacity : Nat) (t : Traffic) : Prop where
  /-- What was read and what is buffered is a merge of what the writers have written. -/
  sent : Sent t.senders (t.received ++ t.ends.pipe.buffer.toList)
  readerAlive : t.ends.pipe.readerAlive = true
  capacity_eq : t.ends.pipe.capacity = max capacity 1
  size_le : t.ends.pipe.buffer.size ≤ t.ends.pipe.capacity
  paired : t.ends.handles.length = t.senders.length
  counted : t.ends.pipe.writers = t.ends.handles.count .live
  /-- Only a writer that is done has dropped its handle. -/
  done : ∀ (i : Nat) (sender : Sender), t.senders[i]? = some sender → t.ends.handles[i]? ≠ some HandleState.live →
    sender.left = []
  finished : t.ended = true → t.ends.pipe.writers = 0 ∧ t.ends.pipe.buffer.toList = []

variable {capacity : Nat} {t t' : Traffic} {ready : Bool}

/-- The traffic is in order at its start. -/
theorem kept_start (capacity : Nat) (data : Bytes) : (start capacity data).Kept capacity where
  sent := .start data
  readerAlive := rfl
  capacity_eq := rfl
  size_le := Nat.zero_le _
  paired := rfl
  counted := rfl
  done i sender h hlive := by
    obtain ⟨hi, -⟩ := List.getElem?_eq_some_iff.1 h
    obtain rfl : i = 0 := by simpa [start] using hi
    exact absurd rfl hlive
  finished := nofun

namespace Kept

/-- While a handle is in use the reader has not seen the end. -/
theorem not_over {i : Nat} (h : t.Kept capacity) (hlive : t.ends.handles[i]? = some HandleState.live) : t.ended = false := by
  by_contra hended
  obtain ⟨hwriters, -⟩ := h.finished (by simpa using hended)
  rw [h.counted, List.count_eq_zero] at hwriters
  exact hwriters (List.mem_of_getElem? hlive)

/-- A sender that writes sends what is accepted. -/
theorem write {i : Nat} {sender : Sender} {result : WritePoll} {ends : PipeEnds} {w : Waker} (h : t.Kept capacity)
    (hlive : t.ends.handles[i]? = some HandleState.live) (hsender : t.senders[i]? = some sender) (hleft : sender.left ≠ [])
    (hwrite : t.ends.write w sender.left = (result, ends)) :
    result ≠ .broken ∧ Kept capacity { t with ends, senders := t.senders.set i (sender.wrote result) } := by
  obtain ⟨hlength, hget⟩ := List.getElem?_eq_some_iff.1 hsender
  have hended := h.not_over hlive
  rcases BytePipe.write_cases (w := w) h.readerAlive hleft with ⟨-, hp⟩ | ⟨n, hpos, hroom, hn, hp⟩
  · obtain ⟨rfl, rfl⟩ := Prod.mk.inj (hwrite.symm.trans (PipeEnds.write_eq hp))
    have hsame : t.senders.set i (sender.wrote .pending) = t.senders := by
      rw [Sender.wrote, ← hget, List.set_getElem_self]
    rw [hsame]
    exact ⟨nofun, by simpa using h.sent, by simpa using h.readerAlive, by simpa using h.capacity_eq,
      by simpa using h.size_le, h.paired, by simpa using h.counted, h.done, by simpa using h.finished⟩
  · obtain ⟨rfl, rfl⟩ := Prod.mk.inj (hwrite.symm.trans (PipeEnds.write_eq hp))
    refine ⟨nofun, ?_, h.readerAlive, h.capacity_eq, ?_, ?_, h.counted, fun j other hj hdead => ?_, by simp [hended]⟩
    · have := h.sent.wrote hsender n
      simpa [Sender.wrote] using this
    · have := h.size_le
      unfold BytePipe.room at hroom
      simp only [Queue.append, List.length_take]
      omega
    · simpa using h.paired
    · have hij : i ≠ j := fun hij => hdead (hij ▸ hlive)
      rw [List.getElem?_set_ne hij] at hj
      exact h.done j other hj hdead

/-- A sender that has sent everything drops its handle. -/
theorem drop {i : Nat} {sender : Sender} (h : t.Kept capacity) (hlive : t.ends.handles[i]? = some HandleState.live)
    (hsender : t.senders[i]? = some sender) (hleft : sender.left = []) : Kept capacity { t with ends := t.ends.drop i } := by
  obtain ⟨hlength, hget⟩ := List.getElem?_eq_some_iff.1 hlive
  have hdrop : t.ends.drop i = ⟨t.ends.pipe.releaseWriter, t.ends.handles.set i .dropped⟩ := by
    simp [PipeEnds.drop, PipeEnds.release, hlive]
  have hended := h.not_over hlive
  rw [hdrop]
  refine ⟨h.sent, h.readerAlive, h.capacity_eq, h.size_le, ?_, ?_, fun j other hj hdead => ?_, by simp [hended]⟩
  · simpa using h.paired
  · simp only [BytePipe.releaseWriter]
    rw [h.counted, List.count_set hlength]
    simp [hget]
  · by_cases hij : i = j
    · subst hij
      rw [hsender] at hj
      exact Option.some.inj hj ▸ hleft
    · rw [List.getElem?_set_ne hij] at hdead
      exact h.done j other hj hdead

/-- A read receives bytes in their order. -/
theorem read {count : Nat} {result : ReadPoll} {ends : PipeEnds} {w : Waker} (h : t.Kept capacity) (hcount : 0 < count)
    (hread : t.ends.read w count = (result, ends)) :
    Kept capacity { t with ends, received := t.received ++ result.data, ended := result == .bytes [] } := by
  rcases BytePipe.read_cases (p := t.ends.pipe) (w := w) hcount with ⟨hnil, hwriters, hp⟩ | ⟨hnil, -, hp⟩ | ⟨hne, hp⟩
  · obtain ⟨rfl, rfl⟩ := Prod.mk.inj (hread.symm.trans (PipeEnds.read_eq hp))
    refine ⟨?_, h.readerAlive, h.capacity_eq, h.size_le, h.paired, h.counted, h.done, fun _ => ⟨hwriters, hnil⟩⟩
    simpa [ReadPoll.data] using h.sent
  · obtain ⟨rfl, rfl⟩ := Prod.mk.inj (hread.symm.trans (PipeEnds.read_eq hp))
    refine ⟨?_, h.readerAlive, h.capacity_eq, h.size_le, h.paired, h.counted, h.done, nofun⟩
    simpa [ReadPoll.data] using h.sent
  · obtain ⟨rfl, rfl⟩ := Prod.mk.inj (hread.symm.trans (PipeEnds.read_eq hp))
    refine ⟨?_, h.readerAlive, h.capacity_eq, ?_, h.paired, h.counted, h.done, fun heq => ?_⟩
    · have := h.sent
      simpa [ReadPoll.data, List.append_assoc] using this
    · have := h.size_le
      simp only [Queue.size_eq_length, Queue.toList_take_snd, List.length_drop] at this ⊢
      omega
    · exact absurd (by simpa using heq) hne

/-- A handle that is cloned has a sender of its own. -/
theorem clone {i : Nat} (h : t.Kept capacity) (data : Bytes) (hlive : t.ends.handles[i]? = some HandleState.live) :
    Kept capacity { t with ends := t.ends.clone.2, senders := t.senders ++ [.fresh data] } := by
  have hended := h.not_over hlive
  refine ⟨h.sent.clone data, h.readerAlive, h.capacity_eq, h.size_le, ?_, ?_, fun j other hj hdead => ?_, by simp [hended]⟩
  · simp [PipeEnds.clone, h.paired]
  · simp [PipeEnds.clone, BytePipe.addWriter, h.counted]
  · simp only [PipeEnds.clone] at hdead
    by_cases hold : j < t.senders.length
    · rw [List.getElem?_append_left hold] at hj
      rw [List.getElem?_append_left (by rw [h.paired]; exact hold)] at hdead
      exact h.done j other hj hdead
    · have hlength := (List.getElem?_eq_some_iff.1 hj).1
      rw [List.length_append, List.length_singleton] at hlength
      obtain rfl : j = t.ends.handles.length := by rw [h.paired]; omega
      exact absurd (by simp) hdead

/-- Every turn keeps the traffic in order. -/
theorem turn (h : t.Kept capacity) (hturn : t.Turn ready t') : t'.Kept capacity := by
  cases hturn with
  | write w hlive hsender hleft hwrite => exact (h.write hlive hsender hleft hwrite).2
  | drop hlive hsender hleft => exact h.drop hlive hsender hleft
  | read w hcount _ hread => exact h.read hcount hread
  | clone data hlive => exact h.clone data hlive

/-- So does a run. -/
theorem runs (h : t.Kept capacity) (hruns : t.Runs t') : t'.Kept capacity := by
  induction hruns with
  | refl => exact h
  | tail _ hturn ih => exact ih.turn hturn.choose_spec

/-- When no handle is in use any more, every writer is done. -/
theorem all_done (h : t.Kept capacity) (hwriters : t.ends.pipe.writers = 0) : ∀ sender ∈ t.senders, sender.left = [] := by
  intro sender hmem
  obtain ⟨i, hi⟩ := List.getElem?_of_mem hmem
  refine h.done i sender hi fun hlive => ?_
  rw [h.counted, List.count_eq_zero] at hwriters
  exact hwriters (List.mem_of_getElem? hlive)

/-- Before the end some party has a turn that gets somewhere: the reader if something is buffered or nobody will write
any more, otherwise the writer of any handle that is in use. -/
theorem progress (h : t.Kept capacity) (hended : t.ended = false) : ∃ t', t.Turn true t' := by
  rcases BytePipe.read_cases (p := t.ends.pipe) (w := 0) Nat.one_pos with ⟨-, -, hp⟩ | ⟨hnil, hwriters, -⟩ | ⟨-, hp⟩
  · exact ⟨_, .read 0 Nat.one_pos hended (PipeEnds.read_eq hp)⟩
  · rw [h.counted] at hwriters
    obtain ⟨i, hi⟩ := List.getElem?_of_mem (List.count_pos_iff.1 (Nat.pos_of_ne_zero hwriters))
    obtain ⟨hlength, -⟩ := List.getElem?_eq_some_iff.1 hi
    obtain ⟨sender, hsender⟩ : ∃ sender, t.senders[i]? = some sender := ⟨_, List.getElem?_eq_getElem (h.paired ▸ hlength)⟩
    by_cases hleft : sender.left = []
    · exact ⟨_, .drop hi hsender hleft⟩
    · have hroom : t.ends.pipe.room ≠ 0 := by
        have hsize : t.ends.pipe.buffer.size = 0 := by rw [Queue.size_eq_length, hnil, List.length_nil]
        have := h.capacity_eq
        unfold BytePipe.room
        omega
      rcases BytePipe.write_cases (w := 0) h.readerAlive hleft with ⟨hfull, -⟩ | ⟨n, -, -, -, hp⟩
      · exact absurd hfull hroom
      · exact ⟨_, .write 0 hi hsender hleft (PipeEnds.write_eq hp)⟩
  · exact ⟨_, .read 0 Nat.one_pos hended (PipeEnds.read_eq hp)⟩

end Kept

/-! ## Whole polls of a writer -/

/-- A poll of a writer that goes on until it is done or the pipe is full is a run of its turns. -/
theorem runs_writeAll {i : Nat} {sender : Sender} (w : Waker) (hlive : t.ends.handles[i]? = some HandleState.live)
    (hsender : t.senders[i]? = some sender) (hleft : sender.left ≠ []) :
    ∃ t', t.Runs t' ∧ t'.ends = (t.ends.writeAll w sender.left).2 := by
  obtain ⟨hlength, -⟩ := List.getElem?_eq_some_iff.1 hsender
  rcases hfirst : t.ends.write w sender.left with ⟨result, ends⟩
  have hturn := Turn.write w hlive hsender hleft hfirst
  unfold PipeEnds.writeAll
  rw [hfirst]
  cases result with
  | pending => exact ⟨_, .single ⟨_, hturn⟩, rfl⟩
  | broken => exact ⟨_, .single ⟨_, hturn⟩, rfl⟩
  | accepted n =>
    by_cases hall : sender.left.drop n = []
    · have hn : sender.left.length ≤ n := List.drop_eq_nil_iff.1 hall
      refine ⟨_, .single ⟨_, hturn⟩, ?_⟩
      dsimp only
      split
      · rfl
      · rw [hall]
        rfl
    · have hn : n ≠ sender.left.length := fun heq => hall (List.drop_eq_nil_iff.2 (Nat.le_of_eq heq.symm))
      have hlive' : ends.handles[i]? = some HandleState.live := by
        have hsame : ends.handles = t.ends.handles := (congrArg (·.2.handles) hfirst).symm
        rw [hsame]
        exact hlive
      rcases hsecond : ends.write w (sender.left.drop n) with ⟨result', ends'⟩
      have hturn' := Turn.write (t := { t with ends, senders := t.senders.set i (sender.wrote (.accepted n)) }) w hlive'
        (List.getElem?_set_self hlength) hall hsecond
      refine ⟨_, .tail (.single ⟨_, hturn⟩) ⟨_, hturn'⟩, ?_⟩
      simp only [beq_iff_eq, hn, if_false, hsecond]

/-! ## Main result -/

/-- In every state that turns lead to, however many writers there are: once the reader has seen the end, what it read is
a merge of all that was given to the writers; the buffer is never above its capacity; a write is never refused; and
until the end some party has a turn that gets somewhere. -/
theorem delivered {data : Bytes} (h : (start capacity data).Runs t) :
    (t.ended = true → Merge (t.senders.map (·.data)) t.received) ∧
      t.ends.pipe.buffer.size ≤ max capacity 1 ∧
      (∀ (i : Nat) (sender : Sender) (w : Waker), t.ends.handles[i]? = some HandleState.live →
        t.senders[i]? = some sender → sender.left ≠ [] → (t.ends.write w sender.left).1 ≠ .broken) ∧
      (t.ended = false → ∃ t', t.Turn true t') := by
  have hkept := (kept_start capacity data).runs h
  refine ⟨fun hended => ?_, hkept.capacity_eq ▸ hkept.size_le, fun i sender w hlive hsender hleft => ?_, hkept.progress⟩
  · obtain ⟨hwriters, hnil⟩ := hkept.finished hended
    have hmerge := hkept.sent.merge (hkept.all_done hwriters)
    rwa [hnil, List.append_nil] at hmerge
  · exact (hkept.write hlive hsender hleft rfl).1

/-- Two writers and a pipe that holds two bytes: the second writer gets its byte in when the reader has made room. -/
theorem delivered_two : ∃ t, (start 2 [1, 2, 3]).Runs t ∧ t.ended = true ∧ Merge [[1, 2, 3], [9]] t.received := by
  have hruns : (start 2 [1, 2, 3]).Runs _ := Relation.ReflTransGen.refl
    |>.tail ⟨_, .clone (i := 0) [9] rfl⟩
    |>.tail ⟨_, .write (i := 0) 0 rfl rfl nofun rfl⟩
    |>.tail ⟨_, .read 2 Nat.one_pos rfl rfl⟩
    |>.tail ⟨_, .write (i := 1) 1 rfl rfl nofun rfl⟩
    |>.tail ⟨_, .drop (i := 1) rfl rfl rfl⟩
    |>.tail ⟨_, .write (i := 0) 0 rfl rfl nofun rfl⟩
    |>.tail ⟨_, .read 2 Nat.two_pos rfl rfl⟩
    |>.tail ⟨_, .write (i := 0) 0 rfl rfl nofun rfl⟩
    |>.tail ⟨_, .drop (i := 0) rfl rfl rfl⟩
    |>.tail ⟨_, .read 2 Nat.two_pos rfl rfl⟩
    |>.tail ⟨_, .read 2 Nat.two_pos rfl rfl⟩
  exact ⟨_, hruns, rfl, (delivered hruns).1 rfl⟩

end Traffic

end DualShell
