import DualShell.Proofs.Stream.Handles

/-!
# Who is parked at a pipe

Whoever finds nothing to read or no room to write is parked, and every action that gives them something to do wakes
them: after any actions a parked reader finds the buffer empty while writers are left, and parked writers find it full
while the reader is there (`BytePipe.Rests`). So a task that was told to wait and was not woken since would be told so
again (`PipeRecord.waits_rightly`).

A pipe does not keep whom it has woken; `BytePipe.woken` tells it from the pipe before and after. The reader has one
place: a task that polls it takes the place over from the one before, which is not woken then.
-/

namespace DualShell

namespace BytePipe

/-- The tasks that lost their place among the parked, other than a reader to another. -/
def woken (p p' : BytePipe) : List Waker :=
  (if p'.parkedReader = none then p.parkedReader.toList else []) ++ p.parkedWriters.filter (· ∉ p'.parkedWriters)

/-- Nobody is parked who has something to do. -/
structure Rests (p : BytePipe) : Prop where
  size_le : p.buffer.size ≤ p.capacity
  reader : ∀ who, p.parkedReader = some who → p.buffer.toList = [] ∧ 0 < p.writers
  writers : ∀ who ∈ p.parkedWriters, p.buffer.size = p.capacity ∧ p.readerAlive = true

variable {p : BytePipe}

/-- A writer is parked if it is the one, or was before. -/
theorem mem_parkWriter {who other : Waker} :
    other ∈ (p.parkWriter who).parkedWriters ↔ other = who ∨ other ∈ p.parkedWriters := by
  unfold parkWriter
  split
  · rename_i hmem
    have hwho : who ∈ p.parkedWriters := List.contains_iff_mem.1 hmem
    exact ⟨.inr, fun h => h.elim (fun heq => heq ▸ hwho) id⟩
  · simp [or_comm]

/-- To park a writer leaves the reader. -/
theorem parkWriter_parkedReader (who : Waker) : (p.parkWriter who).parkedReader = p.parkedReader := by
  unfold parkWriter
  split <;> rfl

/-! ## Each operation -/

namespace Rests

/-- Nobody is parked at a new pipe. -/
theorem create (capacity : Nat) : (BytePipe.create capacity).Rests := ⟨Nat.zero_le _, nofun, nofun⟩

/-- A write parks who finds the pipe full, and otherwise wakes the reader; writers that are parked have found it full. -/
theorem write (h : p.Rests) (who : Waker) (data : Bytes) : (p.write who data).2.Rests := by
  by_cases hdata : data = []
  · rwa [show p.write who data = (.accepted 0, p) by simp [BytePipe.write, hdata]]
  cases halive : p.readerAlive with
  | false => rwa [write_broken p who halive hdata]
  | true =>
    rcases write_cases (w := who) halive hdata with ⟨hroom, hwrite⟩ | ⟨n, hn, hroom, -, hwrite⟩ <;> rw [hwrite]
    · have hfull : p.buffer.size = p.capacity := Nat.le_antisymm h.size_le (Nat.sub_eq_zero_iff_le.1 hroom)
      refine ⟨?_, ?_, fun _ _ => ?_⟩
      · rw [parkWriter_buffer, parkWriter_capacity]
        exact h.size_le
      · rw [parkWriter_parkedReader, parkWriter_buffer, parkWriter_writers]
        exact h.reader
      · rw [parkWriter_buffer, parkWriter_capacity, parkWriter_readerAlive]
        exact ⟨hfull, halive⟩
    · unfold room at hroom
      refine ⟨?_, fun other hother => (Option.some_ne_none other hother.symm).elim, fun other hother => ?_⟩
      · have hlength := List.length_take_le n data
        show p.buffer.size + (data.take n).length ≤ p.capacity
        omega
      · have hfull := (h.writers other hother).1
        omega

/-- A read parks who finds nothing while a writer is left, and otherwise wakes the writers; a reader that is parked has
found nothing. -/
theorem read (h : p.Rests) (who : Waker) (count : Nat) : (p.read who count).2.Rests := by
  unfold BytePipe.read
  split
  · rename_i hsize
    have hsize : p.buffer.size = 0 := beq_iff_eq.1 hsize
    have hnil : p.buffer.toList = [] := List.eq_nil_of_length_eq_zero (by rw [← Queue.size_eq_length, hsize])
    split
    · exact h
    · rename_i hwriters
      exact ⟨h.size_le, fun _ _ => ⟨hnil, Nat.pos_of_ne_zero fun heq => hwriters (beq_iff_eq.2 heq)⟩, h.writers⟩
  · rename_i hsize
    refine ⟨?_, fun other hother => ?_, nofun⟩
    · show (p.buffer.take count).2.size ≤ p.capacity
      rw [Queue.size_eq_length, Queue.toList_take_snd, List.length_drop, ← Queue.size_eq_length]
      exact Nat.le_trans (Nat.sub_le _ _) h.size_le
    · have hnil := (h.reader other hother).1
      exact absurd (beq_iff_eq.2 (by rw [Queue.size_eq_length, hnil, List.length_nil])) hsize

/-- A writer more wakes nobody that rests. -/
theorem addWriter (h : p.Rests) : p.addWriter.Rests :=
  ⟨h.size_le, fun who hwho => ⟨(h.reader who hwho).1, Nat.succ_pos _⟩, h.writers⟩

/-- The last writer that goes wakes the reader. -/
theorem releaseWriter (h : p.Rests) : p.releaseWriter.Rests := by
  refine ⟨h.size_le, fun who hwho => ?_, h.writers⟩
  unfold BytePipe.releaseWriter at hwho ⊢
  dsimp only at hwho ⊢
  split at hwho
  · cases hwho
  · rename_i hleft
    exact ⟨(h.reader who hwho).1, Nat.pos_of_ne_zero fun heq => hleft (beq_iff_eq.2 heq)⟩

/-- The reader that goes wakes the writers, and leaves nothing to read. -/
theorem dropReader (h : p.Rests) : p.dropReader.Rests :=
  ⟨Nat.zero_le _, fun who hwho => ⟨rfl, (h.reader who hwho).2⟩, nofun⟩

/-! ## What the parked would be told -/

/-- Whoever a read is pending for is in the reader's place. -/
theorem parked_of_read {who : Waker} {count : Nat} (hpending : (p.read who count).1 = .pending) :
    (p.read who count).2.parkedReader = some who := by
  unfold BytePipe.read at hpending ⊢
  split at hpending
  · split at hpending
    · cases hpending
    · rename_i hsize hwriters
      rw [if_pos hsize, if_neg hwriters]
  · cases hpending

/-- Whoever a write is pending for is parked. -/
theorem parked_of_write {who : Waker} {data : Bytes} (hpending : (p.write who data).1 = .pending) :
    who ∈ (p.write who data).2.parkedWriters := by
  by_cases hdata : data = []
  · simp [BytePipe.write, hdata] at hpending
  cases halive : p.readerAlive with
  | false =>
    rw [write_broken p who halive hdata] at hpending
    cases hpending
  | true =>
    rcases write_cases (w := who) halive hdata with ⟨-, hwrite⟩ | ⟨n, -, -, -, hwrite⟩ <;> rw [hwrite] at hpending ⊢
    · exact mem_parkWriter.2 (.inl rfl)
    · cases hpending

/-- A parked reader would be told to wait. -/
theorem read_pending (h : p.Rests) {who : Waker} (hwho : p.parkedReader = some who) (other : Waker) (count : Nat) :
    (p.read other count).1 = .pending := by
  obtain ⟨hnil, hwriters⟩ := h.reader who hwho
  rw [read_result, if_pos ⟨by rw [Queue.size_eq_length, hnil, List.length_nil], hwriters⟩]

/-- A parked writer would be told to wait. -/
theorem write_pending (h : p.Rests) {who : Waker} (hwho : who ∈ p.parkedWriters) (other : Waker) {data : Bytes}
    (hdata : data ≠ []) : (p.write other data).1 = .pending := by
  obtain ⟨hfull, halive⟩ := h.writers who hwho
  rw [write_result p other hdata, if_neg (Bool.eq_false_iff.not.2 (not_not.2 halive)), if_pos hfull.ge]

end Rests

end BytePipe

namespace PipeRecord

open BytePipe (Rests)

variable {r : PipeRecord} {who : Waker}

/-! ## Each action -/

/-- Every action leaves parked only who has to wait. -/
theorem rests_act (h : r.ends.pipe.Rests) (a : PipeAction) : (r.act a).ends.pipe.Rests := by
  cases a with
  | write i who data => exact h.write who data
  | writeAll i who data =>
    rcases r.act_writeAll_cases i who data with hact | ⟨n, hact⟩ <;> rw [hact]
    · exact h.write who data
    · exact (h.write who data).write who _
  | clone i => exact h.addWriter
  | shutdown i =>
    rcases release_pipe r.ends i .shut with hpipe | hpipe
    · exact hpipe ▸ h
    · exact hpipe ▸ h.releaseWriter
  | drop i =>
    rcases release_pipe r.ends i .dropped with hpipe | hpipe
    · exact hpipe ▸ h
    · exact hpipe ▸ h.releaseWriter
  | read who count => exact h.read who count
  | dropReader => exact h.dropReader

/-- So do several. -/
theorem rests_after (h : r.ends.pipe.Rests) (as : List PipeAction) : (r.after as).ends.pipe.Rests := by
  induction as generalizing r with
  | nil => exact h
  | cons a as ih => exact ih (rests_act h a)

/-- A write leaves the reader's place as it was, or empty. -/
theorem parkedReader_wrote (r : PipeRecord) (who : Waker) (data : Bytes) :
    (r.wrote who data).ends.pipe.parkedReader = none ∨
      (r.wrote who data).ends.pipe.parkedReader = r.ends.pipe.parkedReader := by
  show (r.ends.pipe.write who data).2.parkedReader = none ∨ (r.ends.pipe.write who data).2.parkedReader =
    r.ends.pipe.parkedReader
  unfold BytePipe.write
  split
  · exact .inr rfl
  · split
    · exact .inr rfl
    · split
      · exact .inr (BytePipe.parkWriter_parkedReader who)
      · exact .inl rfl

/-- So does what releases a handle. -/
theorem parkedReader_release (e : PipeEnds) (i : Nat) (state : HandleState) :
    (e.release i state).pipe.parkedReader = none ∨ (e.release i state).pipe.parkedReader = e.pipe.parkedReader := by
  rcases release_pipe e i state with hpipe | hpipe <;> rw [hpipe]
  · exact .inr rfl
  · unfold BytePipe.releaseWriter
    dsimp only
    split
    · exact .inl rfl
    · exact .inr rfl

/-- Only a read puts a task in the reader's place. -/
theorem parkedReader_act (r : PipeRecord) (a : PipeAction) : (r.act a).ends.pipe.parkedReader = none ∨
    (r.act a).ends.pipe.parkedReader = r.ends.pipe.parkedReader ∨
    ∃ other count, a = .read other count ∧ (r.act a).ends.pipe.parkedReader = some other := by
  cases a with
  | write i who data => exact (parkedReader_wrote r who data).imp_right .inl
  | writeAll i who data =>
    rcases r.act_writeAll_cases i who data with hact | ⟨n, hact⟩ <;> rw [hact]
    · exact (parkedReader_wrote r who data).imp_right .inl
    · rcases parkedReader_wrote (r.wrote who data) who (data.drop n) with hnone | hsame
      · exact .inl hnone
      · rw [hsame]
        exact (parkedReader_wrote r who data).imp_right .inl
  | clone i => exact .inr (.inl rfl)
  | shutdown i => exact (parkedReader_release r.ends i .shut).imp_right .inl
  | drop i => exact (parkedReader_release r.ends i .dropped).imp_right .inl
  | read who count =>
    show (r.ends.pipe.read who count).2.parkedReader = none ∨ (r.ends.pipe.read who count).2.parkedReader =
      r.ends.pipe.parkedReader ∨ ∃ other count', _ ∧ (r.ends.pipe.read who count).2.parkedReader = some other
    unfold BytePipe.read
    split
    · split
      · exact .inr (.inl rfl)
      · exact .inr (.inr ⟨who, count, rfl, rfl⟩)
    · exact .inr (.inl rfl)
  | dropReader => exact .inr (.inl rfl)

/-! ## Tasks that wait -/

/-- A task is not woken by actions. -/
def Sleeps (who : Waker) : PipeRecord → List PipeAction → Prop
  | _, [] => True
  | r, a :: as => who ∉ r.ends.pipe.woken (r.act a).ends.pipe ∧ Sleeps who (r.act a) as

/-- A task is told to wait for room. -/
def Delays (r : PipeRecord) (who : Waker) : PipeAction → Prop
  | .write _ writer data => writer = who ∧ (r.ends.write who data).1 = .pending
  | .writeAll _ writer data => writer = who ∧ (r.ends.writeAll who data).1 = .pending
  | .clone _ | .shutdown _ | .drop _ | .read .. | .dropReader => False

/-- After actions the reader's task still waits: it was told to, was not woken since, and no other task has polled the
reader since. -/
def AwaitsBytes (r : PipeRecord) (as : List PipeAction) (who : Waker) : Prop :=
  ∃ front count back, as = front ++ .read who count :: back ∧ ((r.after front).ends.read who count).1 = .pending ∧
    Sleeps who ((r.after front).act (.read who count)) back ∧ ∀ other count', .read other count' ∈ back → other = who

/-- After actions a writer's task still waits: it was told to, and was not woken since. -/
def AwaitsRoom (r : PipeRecord) (as : List PipeAction) (who : Waker) : Prop :=
  ∃ front a back, as = front ++ a :: back ∧ (r.after front).Delays who a ∧ Sleeps who ((r.after front).act a) back

/-- Who is not woken stays in the reader's place until another task takes it. -/
theorem Sleeps.reader {as : List PipeAction} (h : Sleeps who r as) (hplace : r.ends.pipe.parkedReader = some who)
    (hreads : ∀ other count, .read other count ∈ as → other = who) : (r.after as).ends.pipe.parkedReader = some who := by
  induction as generalizing r with
  | nil => exact hplace
  | cons a as ih =>
    obtain ⟨ha, has⟩ := h
    refine ih has ?_ fun other count hmem => hreads other count (List.mem_cons_of_mem _ hmem)
    rcases parkedReader_act r a with hnone | hsame | ⟨other, count, rfl, htaken⟩
    · refine absurd (List.mem_append_left _ ?_) ha
      rw [if_pos hnone, hplace]
      exact List.mem_singleton_self _
    · rw [hsame, hplace]
    · rw [htaken, hreads other count List.mem_cons_self]

/-- Who is not woken stays among the writers. -/
theorem Sleeps.writer {as : List PipeAction} (h : Sleeps who r as) (hplace : who ∈ r.ends.pipe.parkedWriters) :
    who ∈ (r.after as).ends.pipe.parkedWriters := by
  induction as generalizing r with
  | nil => exact hplace
  | cons a as ih =>
    obtain ⟨ha, has⟩ := h
    refine ih has ?_
    by_contra hgone
    exact ha (List.mem_append_right _ (List.mem_filter.2 ⟨hplace, decide_eq_true hgone⟩))

/-- The last thing that a write of all the data does is a write. -/
theorem writeAll_eq_write (e : PipeEnds) (who : Waker) (data : Bytes) :
    ∃ e' rest, e.writeAll who data = PipeEnds.write e' who rest := by
  unfold PipeEnds.writeAll
  rcases hwrite : e.write who data with ⟨_ | _ | n, e'⟩
  · exact ⟨e, data, hwrite.symm⟩
  · exact ⟨e, data, hwrite.symm⟩
  · dsimp only
    split
    · exact ⟨e, data, hwrite.symm⟩
    · exact ⟨e', _, rfl⟩

/-- A write of all the data waits where a write does. -/
theorem writeAll_pending {e : PipeEnds} {data : Bytes} (h : (e.write who data).1 = .pending) :
    (e.writeAll who data).1 = .pending := by
  unfold PipeEnds.writeAll
  rcases hwrite : e.write who data with ⟨_ | _ | n, e'⟩
  · rfl
  all_goals
    rw [hwrite] at h
    cases h

/-- Actions before, in the middle and after are done in that order. -/
theorem after_middle (r : PipeRecord) (front back : List PipeAction) (a : PipeAction) :
    r.after (front ++ a :: back) = ((r.after front).act a).after back := by
  rw [after, List.foldl_append, List.foldl_cons]
  rfl

/-- Who is told to wait for room is parked. -/
theorem Delays.parked {a : PipeAction} (h : r.Delays who a) : who ∈ (r.act a).ends.pipe.parkedWriters := by
  cases a with
  | write i writer data =>
    obtain ⟨rfl, hpending⟩ := h
    exact Rests.parked_of_write hpending
  | writeAll i writer data =>
    obtain ⟨rfl, hpending⟩ := h
    obtain ⟨e, rest, hlast⟩ := writeAll_eq_write r.ends writer data
    rw [act_writeAll]
    rw [hlast] at hpending ⊢
    exact Rests.parked_of_write hpending
  | clone | shutdown | drop | read | dropReader => exact h.elim

/-- Whatever is done to a pipe by any number of writers and the reader: if a reader is parked, the buffer is empty and a
writer is left; if writers are parked, the buffer is full and the reader is there. And whoever was told to wait and was
not woken since would still be told to wait, by any poll of the kind. -/
theorem waits_rightly (capacity : Nat) (as : List PipeAction) :
    let ends := ((start capacity).after as).ends
    (∀ who, ends.pipe.parkedReader = some who → ends.pipe.buffer.toList = [] ∧ 0 < ends.pipe.writers) ∧
      (∀ who ∈ ends.pipe.parkedWriters, ends.pipe.buffer.toList.length = ends.pipe.capacity ∧ ends.pipe.readerAlive = true) ∧
      (∀ who, (start capacity).AwaitsBytes as who → ∀ count, (ends.read who count).1 = .pending) ∧
      ∀ who, (start capacity).AwaitsRoom as who → ∀ data, data ≠ [] →
        (ends.write who data).1 = .pending ∧ (ends.writeAll who data).1 = .pending := by
  have hrests : ((start capacity).after as).ends.pipe.Rests := rests_after (Rests.create capacity) as
  refine ⟨hrests.reader, fun who hwho => ?_, fun who ⟨front, count, back, heq, hpending, hsleeps, hreads⟩ count' => ?_,
    fun who ⟨front, a, back, heq, hdelays, hsleeps⟩ data hdata => ?_⟩
  · rw [← Queue.size_eq_length]
    exact hrests.writers who hwho
  · have hplace := hsleeps.reader (Rests.parked_of_read hpending) hreads
    rw [← after_middle, ← heq] at hplace
    exact hrests.read_pending hplace who count'
  · have hplace := hsleeps.writer hdelays.parked
    rw [← after_middle, ← heq] at hplace
    have hwrite := hrests.write_pending hplace who hdata
    exact ⟨hwrite, writeAll_pending hwrite⟩

/-- A writer is parked at a full pipe and the first byte that is read wakes it; then a reader is parked at an empty one,
and a clone that comes and goes does not wake it. -/
theorem waits_rightly_both :
    let as : List PipeAction := [.writeAll 0 7 [1, 2, 3], .clone 0]
    let bs : List PipeAction := [.read 8 4, .read 8 4, .clone 0, .drop 2]
    ((start 2).AwaitsRoom as 7 ∧ (((start 2).after as).ends.write 7 [3]).1 = .pending ∧
      ((start 2).after as).ends.pipe.woken ((start 2).after (as ++ [.read 8 1])).ends.pipe = [7]) ∧
    (start 2).AwaitsBytes (as ++ bs) 8 ∧ (((start 2).after (as ++ bs)).ends.read 8 4).1 = .pending := by
  have hroom : (start 2).AwaitsRoom [.writeAll 0 7 [1, 2, 3], .clone 0] 7 :=
    ⟨[], .writeAll 0 7 [1, 2, 3], [.clone 0], rfl, ⟨rfl, rfl⟩, by decide, trivial⟩
  have hbytes : (start 2).AwaitsBytes [.writeAll 0 7 [1, 2, 3], .clone 0, .read 8 4, .read 8 4, .clone 0, .drop 2] 8 :=
    ⟨[.writeAll 0 7 [1, 2, 3], .clone 0, .read 8 4], 4, [.clone 0, .drop 2], rfl, rfl, ⟨by decide, by decide, trivial⟩,
      fun other count h => by simp at h⟩
  exact ⟨⟨hroom, ((waits_rightly 2 _).2.2.2 7 hroom [3] (List.cons_ne_nil _ _)).1, rfl⟩, hbytes,
    (waits_rightly 2 _).2.2.1 8 hbytes 4⟩

end PipeRecord

end DualShell
