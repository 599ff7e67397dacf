import Mathlib.Data.List.Range
import DualShell.Proofs.Stream.Traffic

/-!
# Handles of a pipe

All that can be done to a pipe through its ends, in any order: any number of handles write, are cloned, shut down and
dropped, and the reader reads pieces of any sizes until it is dropped. A `PipeRecord` keeps beside the pipe what was
accepted and what was read.

What a write or a read does is settled by the room, the count of writers and the reader alone, and the count is that of
the handles that were neither dropped nor shut down (`PipeRecord.operations_settled`). A reader that saw the end sees
nothing but the end from then on, unless a handle that was shut down is used again (`PipeRecord.end_final`,
`PipeRecord.end_revived`).
-/

namespace DualShell

/-- What is done to a pipe through one of its ends. -/
inductive PipeAction
  | write (i : Nat) (who : Waker) (data : Bytes)
  /-- One poll of a write of all the data. -/
  | writeAll (i : Nat) (who : Waker) (data : Bytes)
  | clone (i : Nat)
  | shutdown (i : Nat)
  | drop (i : Nat)
  | read (who : Waker) (count : Nat)
  | dropReader
  deriving DecidableEq

namespace PipeAction

/-- Whether it makes a handle. -/
def clones : PipeAction → Bool
  | clone _ => true
  | _ => false

/-- Whether it is the drop or the shutdown of a handle. -/
def releases (i : Nat) : PipeAction → Bool
  | shutdown j | drop j => j == i
  | _ => false

/-- The handles that were made and neither dropped nor shut down. -/
def openHandles (as : List PipeAction) : List Nat :=
  (List.range (as.countP clones + 1)).filter fun i => as.all fun a => !a.releases i

end PipeAction

namespace PipeEnds

/-- Only an end that was not dropped can be used. -/
def Allows (e : PipeEnds) : PipeAction → Prop
  | .write i .. | .writeAll i .. | .clone i | .shutdown i | .drop i => e.usable i = true
  | .read .. | .dropReader => e.pipe.readerAlive = true

/-- A handle that was shut down is cloned, or something is written through it. -/
def Revives (e : PipeEnds) : PipeAction → Prop
  | .write i _ data | .writeAll i _ data => e.handles[i]? = some .shut ∧ data ≠ []
  | .clone i => e.handles[i]? = some .shut
  | .shutdown _ | .drop _ | .read .. | .dropReader => False

end PipeEnds

/-- How many bytes a write got rid of. -/
def WritePoll.count : WritePoll → Nat
  | .accepted n => n
  | .pending | .broken => 0

/-- A pipe, the bytes that were accepted and those that were read, in order. -/
structure PipeRecord where
  ends : PipeEnds
  accepted : Bytes
  received : Bytes

namespace PipeRecord

/-- A pipe of a capacity with its first handle. -/
def start (capacity : Nat) : PipeRecord := ⟨.create capacity, [], []⟩

/-- The record after a write. -/
def wrote (r : PipeRecord) (who : Waker) (data : Bytes) : PipeRecord :=
  { r with ends := (r.ends.write who data).2, accepted := r.accepted ++ data.take (r.ends.write who data).1.count }

/-- The record after an action. -/
def act (r : PipeRecord) : PipeAction → PipeRecord
  | .write _ who data => r.wrote who data
  | .writeAll _ who data =>
    match (r.ends.write who data).1 with
    | .accepted n => if n == data.length then r.wrote who data else (r.wrote who data).wrote who (data.drop n)
    | _ => r.wrote who data
  | .clone _ => { r with ends := r.ends.clone.2 }
  | .shutdown i => { r with ends := r.ends.shutdown i }
  | .drop i => { r with ends := r.ends.drop i }
  | .read who count => { r with ends := (r.ends.read who count).2, received := r.received ++ (r.ends.read who count).1.data }
  | .dropReader => { r with ends := r.ends.dropReader }

/-- The record after actions. -/
def after (r : PipeRecord) (as : List PipeAction) : PipeRecord := as.foldl act r

/-- Each action is as it should be when its turn comes. -/
def Each (P : PipeEnds → PipeAction → Prop) : PipeRecord → List PipeAction → Prop
  | _, [] => True
  | r, a :: as => P r.ends a ∧ (r.act a).Each P as

/-- A write of all the data is what the ends make of it. -/
theorem act_writeAll (r : PipeRecord) (i : Nat) (who : Waker) (data : Bytes) :
    (r.act (.writeAll i who data)).ends = (r.ends.writeAll who data).2 := by
  unfold act PipeEnds.writeAll
  rcases hwrite : r.ends.write who data with ⟨_ | _ | n, e⟩
  · simp [wrote, hwrite]
  · simp [wrote, hwrite]
  · by_cases hn : n == data.length <;> simp [wrote, hwrite, hn]

/-- A write of all the data is one write, or two. -/
theorem act_writeAll_cases (r : PipeRecord) (i : Nat) (who : Waker) (data : Bytes) :
    r.act (.writeAll i who data) = r.wrote who data ∨
      ∃ n, r.act (.writeAll i who data) = (r.wrote who data).wrote who (data.drop n) := by
  simp only [act]
  split
  · split
    · exact .inl rfl
    · exact .inr ⟨_, rfl⟩
  · exact .inl rfl

end PipeRecord

/-! ## Polls -/

namespace BytePipe

variable (p : BytePipe) (who : Waker)

/-- A write of nothing, or after the reader is gone, changes nothing. -/
theorem write_broken {data : Bytes} (halive : p.readerAlive = false) (hdata : data ≠ []) :
    p.write who data = (.broken, p) := by
  have hempty : data.isEmpty = false := by simpa using hdata
  simp [write, hempty, halive]

/-- A write fails if the reader is gone, waits if the buffer is full, and otherwise takes what fits. -/
theorem write_result {data : Bytes} (hdata : data ≠ []) : (p.write who data).1 =
    if p.readerAlive = false then .broken
    else if p.capacity ≤ p.buffer.size then .pending
    else .accepted (min (p.capacity - p.buffer.size) data.length) := by
  have hempty : data.isEmpty = false := by simpa using hdata
  by_cases halive : p.readerAlive = false
  · rw [if_pos halive, write_broken p who halive hdata]
  · rw [if_neg halive]
    by_cases hfull : p.capacity ≤ p.buffer.size
    · have hroom : p.room = 0 := Nat.sub_eq_zero_of_le hfull
      simp [write, hempty, halive, hroom, hfull]
    · have hroom : p.room ≠ 0 := fun h => hfull (Nat.sub_eq_zero_iff_le.1 h)
      rw [if_neg hfull]
      simp [write, hempty, halive, hroom]
      rfl

/-- A read waits if nothing is there and a writer is left, and otherwise takes as much as is there. -/
theorem read_result (count : Nat) : (p.read who count).1 =
    if p.buffer.size = 0 ∧ 0 < p.writers then .pending else .bytes (p.buffer.toList.take count) := by
  by_cases hsize : p.buffer.size = 0
  · have hnil : p.buffer.toList = [] := List.eq_nil_of_length_eq_zero (by rw [← Queue.size_eq_length, hsize])
    by_cases hwriters : p.writers = 0
    · simp [read, hsize, hwriters, hnil]
    · simp [read, hsize, hwriters, Nat.pos_of_ne_zero hwriters]
  · simp [read, hsize]

/-- All that a write changes of a pipe is what it holds, and who is parked. -/
theorem write_pipe (data : Bytes) : ∃ buffer reader parked,
    (p.write who data).2 = { p with buffer, parkedReader := reader, parkedWriters := parked } ∧
      buffer.toList = p.buffer.toList ++ data.take (p.write who data).1.count ∧
      (p.buffer.size ≤ p.capacity → buffer.size ≤ p.capacity) := by
  by_cases hdata : data = []
  · exact ⟨p.buffer, p.parkedReader, p.parkedWriters, by simp [write, hdata], by simp [hdata], id⟩
  · cases halive : p.readerAlive with
    | false =>
      rw [write_broken p who halive hdata]
      exact ⟨p.buffer, p.parkedReader, p.parkedWriters, by rw [← halive], by simp [WritePoll.count], id⟩
    | true =>
      rw [← halive]
      rcases write_cases (w := who) halive hdata with ⟨-, hwrite⟩ | ⟨n, -, hroom, -, hwrite⟩ <;> rw [hwrite]
      · refine ⟨p.buffer, p.parkedReader, (p.parkWriter who).parkedWriters, ?_, by simp [WritePoll.count], id⟩
        unfold parkWriter
        split <;> rfl
      · refine ⟨_, none, p.parkedWriters, rfl, Queue.toList_append _ _, fun hsize => ?_⟩
        have hlength := List.length_take_le n data
        rw [Queue.size_eq_length, Queue.toList_append, List.length_append, ← Queue.size_eq_length]
        unfold room at hroom
        omega

/-- All that a read changes of a pipe is what it holds, and who is parked; it takes the front. -/
theorem read_pipe (count : Nat) : ∃ buffer reader parked,
    (p.read who count).2 = { p with buffer, parkedReader := reader, parkedWriters := parked } ∧
      (p.read who count).1.data ++ buffer.toList = p.buffer.toList := by
  by_cases hsize : p.buffer.size = 0
  · by_cases hwriters : p.writers = 0
    · have hread : p.read who count = (.bytes [], p) := by simp [read, hsize, hwriters]
      exact ⟨p.buffer, p.parkedReader, p.parkedWriters, by rw [hread], by rw [hread]; rfl⟩
    · have hread : p.read who count = (.pending, { p with parkedReader := some who }) := by simp [read, hsize, hwriters]
      exact ⟨p.buffer, some who, p.parkedWriters, by rw [hread], by rw [hread]; rfl⟩
  · have hread : p.read who count =
        (.bytes (p.buffer.take count).1, { p with buffer := (p.buffer.take count).2, parkedWriters := [] }) := by
          simp [read, hsize]
    exact ⟨(p.buffer.take count).2, p.parkedReader, [], by rw [hread], by rw [hread]; simp [ReadPoll.data]⟩

end BytePipe

/-! ## What is kept -/

namespace PipeRecord

variable {capacity : Nat} {as bs : List PipeAction} {r : PipeRecord}

/-- The bytes are where they should be. -/
structure Stocked (capacity : Nat) (r : PipeRecord) : Prop where
  capacity_eq : r.ends.pipe.capacity = max capacity 1
  size_le : r.ends.pipe.buffer.size ≤ r.ends.pipe.capacity
  received_prefix : r.received <+: r.accepted
  inOrder : r.ends.pipe.readerAlive = true → r.received ++ r.ends.pipe.buffer.toList = r.accepted

/-- The ends are what was done to them. -/
structure Counted (as : List PipeAction) (r : PipeRecord) : Prop where
  counted : r.ends.pipe.writers = r.ends.handles.count .live
  made : r.ends.handles.length = as.countP PipeAction.clones + 1
  live_iff : ∀ i < r.ends.handles.length, r.ends.handles[i]? = some .live ↔ ∀ a ∈ as, a.releases i = false
  known : ∀ a ∈ as, ∀ i, a.releases i = true → i < r.ends.handles.length
  reader : r.ends.pipe.readerAlive = true ↔ .dropReader ∉ as

/-! ### Bytes -/

/-- What is stocked after a write are the bytes that were accepted. -/
theorem Stocked.wrote (h : Stocked capacity r) (who : Waker) (data : Bytes) : Stocked capacity (r.wrote who data) := by
  obtain ⟨buffer, reader, parked, hpipe, hbuffer, hsize⟩ := r.ends.pipe.write_pipe who data
  have hends : (r.ends.write who data).2.pipe = (r.ends.pipe.write who data).2 := rfl
  have hresult : (r.ends.write who data).1 = (r.ends.pipe.write who data).1 := rfl
  refine ⟨?_, ?_, h.received_prefix.trans (List.prefix_append _ _), fun halive => ?_⟩
  · rw [PipeRecord.wrote, hends, hpipe]
    exact h.capacity_eq
  · rw [PipeRecord.wrote, hends, hpipe]
    exact hsize h.size_le
  · simp only [PipeRecord.wrote, hends, hpipe] at halive
    simp only [PipeRecord.wrote, hends, hpipe, hresult, hbuffer]
    rw [← List.append_assoc, h.inOrder halive]

/-- To release a handle changes the count of writers at most. -/
theorem release_pipe (e : PipeEnds) (i : Nat) (state : HandleState) :
    (e.release i state).pipe = e.pipe ∨ (e.release i state).pipe = e.pipe.releaseWriter := by
  unfold PipeEnds.release
  split
  · exact .inr rfl
  · exact .inl rfl
  · exact .inl rfl

/-- To release a handle keeps the bytes. -/
theorem Stocked.release (h : Stocked capacity r) (i : Nat) (state : HandleState) :
    Stocked capacity { r with ends := r.ends.release i state } := by
  rcases release_pipe r.ends i state with hpipe | hpipe
  all_goals
    refine ⟨?_, ?_, h.received_prefix, ?_⟩
    all_goals
      dsimp only
      rw [hpipe]
    · exact h.capacity_eq
    · exact h.size_le
    · exact h.inOrder

/-- Every action that is allowed keeps account of the bytes. -/
theorem Stocked.act (h : Stocked capacity r) {a : PipeAction} (ha : r.ends.Allows a) : Stocked capacity (r.act a) := by
  cases a with
  | write i who data => exact h.wrote who data
  | writeAll i who data =>
    rcases r.act_writeAll_cases i who data with hact | ⟨n, hact⟩ <;> rw [hact]
    · exact h.wrote who data
    · exact (h.wrote who data).wrote who _
  | clone i => exact ⟨h.capacity_eq, h.size_le, h.received_prefix, h.inOrder⟩
  | shutdown i => exact h.release i .shut
  | drop i => exact h.release i .dropped
  | read who count =>
    obtain ⟨buffer, reader, parked, hpipe, hbuffer⟩ := r.ends.pipe.read_pipe who count
    have hends : (r.ends.read who count).2.pipe = (r.ends.pipe.read who count).2 := rfl
    have hresult : (r.ends.read who count).1 = (r.ends.pipe.read who count).1 := rfl
    have hall : r.received ++ (r.ends.pipe.read who count).1.data ++ buffer.toList = r.accepted := by
      rw [List.append_assoc, hbuffer, h.inOrder ha]
    refine ⟨?_, ?_, ?_, fun _ => ?_⟩
    · rw [PipeRecord.act, hends, hpipe]
      exact h.capacity_eq
    · rw [PipeRecord.act, hends, hpipe]
      refine Nat.le_trans ?_ h.size_le
      rw [Queue.size_eq_length, Queue.size_eq_length, ← hbuffer, List.length_append]
      exact Nat.le_add_left _ _
    · rw [PipeRecord.act, hresult]
      exact ⟨_, hall⟩
    · rw [PipeRecord.act, hends, hpipe, hresult]
      exact hall
  | dropReader => exact ⟨h.capacity_eq, Nat.zero_le _, h.received_prefix, nofun⟩

/-! ### Handles -/

/-- A handle is not released by actions if it is not by the first ones nor by the last. -/
theorem releases_snoc {i : Nat} {a : PipeAction} (ha : a.releases i = false) :
    (∀ b ∈ as ++ [a], b.releases i = false) ↔ ∀ b ∈ as, b.releases i = false := by
  rw [List.forall_mem_append, List.forall_mem_singleton, and_iff_left ha]

/-- An action that makes and releases no handle, and leaves the reader there. -/
theorem Counted.same {r' : PipeRecord} (h : Counted as r) {a : PipeAction} (hhandles : r'.ends.handles = r.ends.handles)
    (hwriters : r'.ends.pipe.writers = r.ends.pipe.writers) (hreader : r'.ends.pipe.readerAlive = r.ends.pipe.readerAlive)
    (hclones : a.clones = false) (hreleases : ∀ i, a.releases i = false) (hdrop : a ≠ .dropReader) :
    Counted (as ++ [a]) r' := by
  refine ⟨?_, ?_, fun i hi => ?_, fun b hb i hi => ?_, ?_⟩
  · rw [hwriters, hhandles]
    exact h.counted
  · rw [hhandles, h.made]
    simp [hclones]
  · rw [hhandles] at hi ⊢
    rw [h.live_iff i hi, releases_snoc (hreleases i)]
  · rw [hhandles]
    rcases List.mem_append.1 hb with hb | hb
    · exact h.known b hb i hi
    · rw [List.mem_singleton.1 hb, hreleases] at hi
      cases hi
  · rw [hreader, h.reader]
    simp [hdrop.symm]

/-- A write changes no handle. -/
theorem wrote_ends (r : PipeRecord) (who : Waker) (data : Bytes) : (r.wrote who data).ends.handles = r.ends.handles ∧
    (r.wrote who data).ends.pipe.writers = r.ends.pipe.writers ∧
    (r.wrote who data).ends.pipe.readerAlive = r.ends.pipe.readerAlive := by
  obtain ⟨buffer, reader, parked, hpipe, -⟩ := r.ends.pipe.write_pipe who data
  have hends : (r.wrote who data).ends.pipe = (r.ends.pipe.write who data).2 := rfl
  refine ⟨rfl, ?_, ?_⟩ <;> rw [hends, hpipe]

/-- A write keeps the count of handles. -/
theorem Counted.wrote (h : Counted as r) {a : PipeAction} (who : Waker) (data : Bytes) (hclones : a.clones = false)
    (hreleases : ∀ i, a.releases i = false) (hdrop : a ≠ .dropReader) : Counted (as ++ [a]) (r.wrote who data) := by
  obtain ⟨hhandles, hwriters, hreader⟩ := wrote_ends r who data
  exact h.same hhandles hwriters hreader hclones hreleases hdrop

/-- Only a handle that was made can be used. -/
theorem lt_of_usable {e : PipeEnds} {i : Nat} (h : e.usable i = true) : i < e.handles.length := by
  by_contra hout
  rw [PipeEnds.usable, List.getElem?_eq_none (Nat.not_lt.1 hout)] at h
  cases h

/-- What the release of a handle changes at the ends. -/
theorem Counted.release_ends (h : Counted as r) {i : Nat} {state : HandleState} (husable : r.ends.usable i = true)
    (hstate : state ≠ .live) : (r.ends.release i state).handles = r.ends.handles.set i state ∧
      (r.ends.release i state).pipe.writers = (r.ends.handles.set i state).count .live := by
  have hi := lt_of_usable husable
  have hset := List.count_set (a := state) (b := HandleState.live) hi
  rw [beq_eq_false_iff_ne.2 hstate, if_neg Bool.false_ne_true, Nat.add_zero] at hset
  unfold PipeEnds.release
  unfold PipeEnds.usable at husable
  split
  · rename_i hlive
    rw [List.getElem?_eq_getElem hi] at hlive
    refine ⟨rfl, ?_⟩
    rw [hset, Option.some.inj hlive, beq_self_eq_true, if_pos rfl, ← h.counted]
    rfl
  · rename_i hshut
    rw [List.getElem?_eq_getElem hi] at hshut
    refine ⟨rfl, ?_⟩
    rw [hset, Option.some.inj hshut, if_neg (by decide), Nat.sub_zero, ← h.counted]
  · rename_i hlive hshut
    split at husable
    · exact absurd ‹_› hlive
    · exact absurd ‹_› hshut
    · cases husable

/-- A handle that can be used is released. -/
theorem Counted.release (h : Counted as r) {a : PipeAction} {i : Nat} {state : HandleState}
    (husable : r.ends.usable i = true)
    (hstate : state ≠ .live) (hclones : a.clones = false) (hreleases : ∀ j, a.releases j = (i == j))
    (hdrop : a ≠ .dropReader) : Counted (as ++ [a]) { r with ends := r.ends.release i state } := by
  have hi := lt_of_usable husable
  obtain ⟨hhandles, hwriters⟩ := h.release_ends husable hstate
  have hreader : (r.ends.release i state).pipe.readerAlive = r.ends.pipe.readerAlive := by
    rcases release_pipe r.ends i state with hpipe | hpipe <;> rw [hpipe]
    rfl
  refine ⟨?_, ?_, fun j hj => ?_, fun b hb j hj => ?_, ?_⟩
  · rw [hhandles, hwriters]
  · rw [hhandles, List.length_set, h.made]
    simp [hclones]
  · rw [hhandles, List.length_set] at hj
    rw [hhandles]
    by_cases hij : i = j
    · subst hij
      rw [List.getElem?_set_self hi]
      refine ⟨fun hlive => absurd (Option.some.inj hlive) hstate, fun hall => ?_⟩
      have hnone := hall a (by simp)
      rw [hreleases, beq_self_eq_true] at hnone
      cases hnone
    · rw [List.getElem?_set_ne hij, h.live_iff j hj, releases_snoc ((hreleases j).trans (beq_eq_false_iff_ne.2 hij))]
  · rw [hhandles, List.length_set]
    rcases List.mem_append.1 hb with hb | hb
    · exact h.known b hb j hj
    · rw [List.mem_singleton.1 hb, hreleases, beq_iff_eq] at hj
      exact hj ▸ hi
  · rw [hreader, h.reader]
    simp [hdrop.symm]

/-- A handle is added. -/
theorem Counted.clone (h : Counted as r) (i : Nat) : Counted (as ++ [.clone i]) (r.act (.clone i)) := by
  have hlength : (r.ends.handles ++ [HandleState.live]).length = r.ends.handles.length + 1 := by simp
  refine ⟨?_, ?_, fun j hj => ?_, fun b hb j hj => ?_, ?_⟩
  · show r.ends.pipe.writers + 1 = (r.ends.handles ++ [HandleState.live]).count .live
    rw [List.count_append, h.counted]
    rfl
  · show (r.ends.handles ++ [HandleState.live]).length = _
    rw [hlength, h.made]
    simp [PipeAction.clones]
  · show (r.ends.handles ++ [HandleState.live])[j]? = _ ↔ _
    rw [releases_snoc rfl]
    rcases Nat.lt_or_ge j r.ends.handles.length with hlt | hge
    · rw [List.getElem?_append_left hlt, h.live_iff j hlt]
    · -- The new handle: nobody can have released it.
      obtain rfl : j = r.ends.handles.length := Nat.le_antisymm (Nat.lt_succ_iff.1 (Nat.lt_of_lt_of_eq hj hlength)) hge
      rw [List.getElem?_concat_length]
      refine iff_of_true rfl fun b hb => Bool.eq_false_iff.2 fun hreleased => ?_
      exact Nat.lt_irrefl _ (h.known b hb _ hreleased)
  · show j < (r.ends.handles ++ [HandleState.live]).length
    rw [hlength]
    rcases List.mem_append.1 hb with hb | hb
    · exact Nat.lt_succ_of_lt (h.known b hb j hj)
    · rw [List.mem_singleton.1 hb] at hj
      cases hj
  · show r.ends.pipe.readerAlive = true ↔ _
    rw [h.reader]
    simp

/-- The reader goes. -/
theorem Counted.dropReader (h : Counted as r) : Counted (as ++ [.dropReader]) (r.act .dropReader) := by
  refine ⟨h.counted, ?_, fun i hi => ?_, fun b hb i hi => ?_, ?_⟩
  · show r.ends.handles.length = _
    rw [h.made]
    simp [PipeAction.clones]
  · rw [releases_snoc rfl]
    exact h.live_iff i hi
  · rcases List.mem_append.1 hb with hb | hb
    · exact h.known b hb i hi
    · rw [List.mem_singleton.1 hb] at hi
      cases hi
  · exact iff_of_false Bool.false_ne_true fun hnot => hnot (List.mem_append_right _ (List.mem_singleton_self _))

/-- Every action that is allowed keeps the count of handles. -/
theorem Counted.act (h : Counted as r) {a : PipeAction} (ha : r.ends.Allows a) : Counted (as ++ [a]) (r.act a) := by
  cases a with
  | write i who data => exact h.wrote who data rfl (fun _ => rfl) nofun
  | writeAll i who data =>
    rcases r.act_writeAll_cases i who data with hact | ⟨n, hact⟩ <;> rw [hact]
    · exact h.wrote who data rfl (fun _ => rfl) nofun
    · obtain ⟨hhandles, hwriters, hreader⟩ := wrote_ends r who data
      obtain ⟨hhandles', hwriters', hreader'⟩ := wrote_ends (r.wrote who data) who (data.drop n)
      exact h.same (hhandles'.trans hhandles) (hwriters'.trans hwriters) (hreader'.trans hreader) rfl (fun _ => rfl) nofun
  | clone i => exact h.clone i
  | shutdown i => exact h.release ha (by decide) rfl (fun _ => rfl) nofun
  | drop i => exact h.release ha (by decide) rfl (fun _ => rfl) nofun
  | read who count =>
    obtain ⟨buffer, reader, parked, hpipe, -⟩ := r.ends.pipe.read_pipe who count
    have hends : (r.act (.read who count)).ends.pipe = (r.ends.pipe.read who count).2 := rfl
    refine h.same rfl ?_ ?_ rfl (fun _ => rfl) nofun <;> rw [hends, hpipe]
  | dropReader => exact h.dropReader

/-! ### Runs -/

/-- What holds of a pipe after actions. -/
structure Kept (capacity : Nat) (as : List PipeAction) (r : PipeRecord) : Prop extends Stocked capacity r, Counted as r

/-- A new pipe is in order. -/
theorem kept_start (capacity : Nat) : (start capacity).Kept capacity [] where
  capacity_eq := rfl
  size_le := Nat.zero_le _
  received_prefix := List.prefix_refl _
  inOrder _ := rfl
  counted := rfl
  made := rfl
  live_iff i hi := by
    obtain rfl : i = 0 := Nat.lt_one_iff.1 hi
    exact iff_of_true rfl (List.forall_mem_nil _)
  known := nofun
  reader := iff_of_true rfl List.not_mem_nil

/-- Actions that are allowed keep a pipe in order. -/
theorem Kept.after (h : Kept capacity as r) (hbs : r.Each PipeEnds.Allows bs) : Kept capacity (as ++ bs) (r.after bs) := by
  induction bs generalizing as r with
  | nil => rwa [List.append_nil]
  | cons b bs ih =>
    obtain ⟨hb, hbs⟩ := hbs
    have hrest := ih ⟨h.toStocked.act hb, h.toCounted.act hb⟩ hbs
    rwa [List.append_assoc] at hrest

/-- A number that is counted is that of the entries. -/
theorem count_eq_length_filter {l : List HandleState} {p : Nat → Bool}
    (h : ∀ i < l.length, l[i]? = some .live ↔ p i = true) :
    l.count .live = ((List.range l.length).filter p).length := by
  induction l generalizing p with
  | nil => rfl
  | cons x l ih =>
    have hrest := ih (p := p ∘ Nat.succ) fun i hi => h (i + 1) (Nat.succ_lt_succ hi)
    have hfirst := h 0 (Nat.succ_pos _)
    rw [List.length_cons, List.range_succ_eq_map, List.filter_cons, List.filter_map, List.count_cons, hrest]
    by_cases hx : x = .live
    · rw [if_pos (beq_iff_eq.2 hx), if_pos (hfirst.1 (congrArg some hx)), List.length_cons, List.length_map]
    · rw [if_neg fun heq => hx (beq_iff_eq.1 heq), if_neg fun hp => hx (Option.some.inj (hfirst.2 hp)), List.length_map]
      rfl

/-- The writers of a pipe are its open handles. -/
theorem Counted.writers_eq (h : Counted as r) : r.ends.pipe.writers = (PipeAction.openHandles as).length := by
  rw [h.counted, PipeAction.openHandles, ← h.made]
  refine count_eq_length_filter fun i hi => ?_
  rw [h.live_iff i hi]
  simp

/-- A handle is open if it is live. -/
theorem Counted.mem_openHandles (h : Counted as r) {i : Nat} :
    i ∈ PipeAction.openHandles as ↔ r.ends.handles[i]? = some .live := by
  have hmem : i ∈ PipeAction.openHandles as ↔ i < r.ends.handles.length ∧ ∀ a ∈ as, a.releases i = false := by
    simp [PipeAction.openHandles, h.made]
  rw [hmem]
  constructor
  · rintro ⟨hi, hall⟩
    exact (h.live_iff i hi).2 hall
  · intro hlive
    obtain ⟨hi, -⟩ := List.getElem?_eq_some_iff.1 hlive
    exact ⟨hi, (h.live_iff i hi).1 hlive⟩

/-! ## Polls of a pipe in use -/

/-- What a write of some data comes to. -/
theorem Kept.write (h : Kept capacity as r) (who : Waker) {data : Bytes} (hdata : data ≠ []) : (r.ends.write who data).1 =
    if .dropReader ∈ as then .broken
    else if r.ends.pipe.buffer.size = max capacity 1 then .pending
    else .accepted (min (max capacity 1 - r.ends.pipe.buffer.size) data.length) := by
  have hfull : max capacity 1 ≤ r.ends.pipe.buffer.size ↔ r.ends.pipe.buffer.size = max capacity 1 :=
    ⟨fun hle => Nat.le_antisymm (h.capacity_eq ▸ h.size_le) hle, fun heq => Nat.le_of_eq heq.symm⟩
  have hgone : r.ends.pipe.readerAlive = false ↔ .dropReader ∈ as := by
    rw [← Bool.not_eq_true, h.reader, not_not]
  have hresult := r.ends.pipe.write_result who hdata
  simp only [hgone, h.capacity_eq, hfull] at hresult
  exact hresult

/-- What a read comes to. -/
theorem Kept.read (h : Kept capacity as r) (who : Waker) (count : Nat) : (r.ends.read who count).1 =
    if r.ends.pipe.buffer.toList = [] ∧ PipeAction.openHandles as ≠ [] then .pending
    else .bytes (r.ends.pipe.buffer.toList.take count) := by
  have hempty : r.ends.pipe.buffer.size = 0 ↔ r.ends.pipe.buffer.toList = [] := by
    rw [Queue.size_eq_length, List.length_eq_zero_iff]
  have hleft : 0 < r.ends.pipe.writers ↔ PipeAction.openHandles as ≠ [] := by
    rw [h.writers_eq, List.length_pos_iff]
  have hresult := r.ends.pipe.read_result who count
  simp only [hempty, hleft] at hresult
  exact hresult

/-- Only the release of a handle that is open changes the count, which is not zero then. -/
theorem Kept.release (h : Kept capacity as r) {i : Nat} (hi : i ∈ PipeAction.openHandles as) (state : HandleState) :
    (r.ends.release i state).pipe.writers + 1 = r.ends.pipe.writers := by
  have hrelease : (r.ends.release i state).pipe = r.ends.pipe.releaseWriter := by
    rw [PipeEnds.release, h.mem_openHandles.1 hi]
  have hpos : 0 < r.ends.pipe.writers := h.writers_eq ▸ List.length_pos_of_mem hi
  rw [hrelease]
  exact Nat.sub_add_cancel hpos

/-- Whatever is done to a pipe, it holds what was accepted and has not been read, in order and within its capacity; it
counts the handles that are open; a write fails if the reader is gone, waits if the pipe is full, and otherwise takes
all that fits, which is something; and a read waits if nothing is there and a handle is open, and otherwise takes as
much as is there. -/
theorem operations_settled (capacity : Nat) (as : List PipeAction) (h : (start capacity).Each PipeEnds.Allows as) :
    let r := (start capacity).after as
    let held := r.ends.pipe.buffer.toList
    (r.received <+: r.accepted ∧ (.dropReader ∉ as → r.received ++ held = r.accepted)) ∧
      held.length ≤ max capacity 1 ∧
      r.ends.pipe.writers = (PipeAction.openHandles as).length ∧
      (∀ i ∈ PipeAction.openHandles as, ∀ state, (r.ends.release i state).pipe.writers + 1 = r.ends.pipe.writers) ∧
      (∀ who data, data ≠ [] →
        (r.ends.write who data).1 =
            (if .dropReader ∈ as then .broken
            else if held.length = max capacity 1 then .pending
            else .accepted (min (max capacity 1 - held.length) data.length)) ∧
          (held.length ≠ max capacity 1 → 0 < min (max capacity 1 - held.length) data.length)) ∧
      ∀ who count,
        (r.ends.read who count).1 =
            (if held = [] ∧ PipeAction.openHandles as ≠ [] then .pending else .bytes (held.take count)) ∧
          (held.take count).length = min count held.length := by
  have hkept : Kept capacity as ((start capacity).after as) := (kept_start capacity).after h
  have hsize := Queue.size_eq_length ((start capacity).after as).ends.pipe.buffer
  have hle : ((start capacity).after as).ends.pipe.buffer.toList.length ≤ max capacity 1 := by
    rw [← hsize, ← hkept.capacity_eq]
    exact hkept.size_le
  refine ⟨⟨hkept.received_prefix, fun hnot => hkept.inOrder (hkept.reader.2 hnot)⟩, hle, hkept.writers_eq,
    fun i hi state => hkept.release hi state, fun who data hdata => ⟨?_, fun hroom => ?_⟩, fun who count =>
    ⟨?_, List.length_take⟩⟩
  · rw [hkept.write who hdata, hsize]
  · have hlength := List.length_pos_of_ne_nil hdata
    omega
  · exact hkept.read who count

/-- A handle is cloned, its clone fills the pipe, both are done, and the rest is still to be read. -/
theorem operations_settled_filled :
    let as : List PipeAction := [.clone 0, .writeAll 1 0 [1, 2, 3], .shutdown 0, .read 0 1, .drop 1]
    ((start 2).Each PipeEnds.Allows as ∧ PipeAction.openHandles as = []) ∧
      (((start 2).after as).ends.read 0 4).1 = .bytes [2] ∧ ((start 2).after as).accepted = [1, 2] := by
  refine ⟨⟨by refine ⟨rfl, rfl, rfl, rfl, rfl, trivial⟩, rfl⟩, ?_, rfl⟩
  obtain ⟨-, -, -, -, -, hread⟩ :=
    operations_settled 2 [.clone 0, .writeAll 1 0 [1, 2, 3], .shutdown 0, .read 0 1, .drop 1] ⟨rfl, rfl, rfl, rfl,
      rfl, trivial⟩
  exact (hread 0 4).1

/-! ## The end of the stream -/

/-- The reader is at the end: nothing is there, and nobody counts as a writer. -/
structure AtEnd (r : PipeRecord) : Prop where
  empty : r.ends.pipe.buffer.toList = []
  writers : r.ends.pipe.writers = 0

/-- Whoever reads no bytes finds the pipe at its end. -/
theorem Kept.atEnd (h : Kept capacity as r) {who : Waker} {count : Nat} (hcount : 0 < count)
    (hread : (r.ends.read who count).1 = .bytes []) : r.AtEnd := by
  rw [h.read] at hread
  split at hread
  · cases hread
  · rename_i hready
    have hnone : r.ends.pipe.buffer.toList = [] :=
      (List.take_eq_nil_iff.1 (ReadPoll.bytes.inj hread)).resolve_left (Nat.ne_of_gt hcount)
    refine ⟨hnone, ?_⟩
    rw [h.writers_eq, List.length_eq_zero_iff]
    exact not_not.1 fun hopen => hready ⟨hnone, hopen⟩

/-- At the end reads find no bytes. -/
theorem AtEnd.read (h : r.AtEnd) (who : Waker) (count : Nat) : r.ends.read who count = (.bytes [], r.ends) := by
  have hsize : r.ends.pipe.buffer.size = 0 := by rw [Queue.size_eq_length, h.empty, List.length_nil]
  simp [PipeEnds.read, BytePipe.read, hsize, h.writers]

/-- At the end every handle that can be used was shut down. -/
theorem AtEnd.shut (h : r.AtEnd) (hcounted : Counted as r) {i : Nat} (husable : r.ends.usable i = true) :
    r.ends.handles[i]? = some .shut := by
  have hnone : .live ∉ r.ends.handles := List.count_eq_zero.1 (hcounted.counted.symm.trans h.writers)
  unfold PipeEnds.usable at husable
  split at husable
  · exact absurd (List.mem_of_getElem? ‹_›) hnone
  · assumption
  · cases husable

/-- To write no bytes changes nothing. -/
theorem wrote_nil (r : PipeRecord) (who : Waker) : r.wrote who [] = r := by
  simp [wrote, PipeEnds.write, BytePipe.write]

/-- To release a handle keeps the end. -/
theorem AtEnd.release (h : r.AtEnd) (i : Nat) (state : HandleState) : AtEnd { r with ends := r.ends.release i state } := by
  rcases release_pipe r.ends i state with hpipe | hpipe
  · exact ⟨(congrArg (·.buffer.toList) hpipe).trans h.empty, (congrArg (·.writers) hpipe).trans h.writers⟩
  · refine ⟨(congrArg (·.buffer.toList) hpipe).trans h.empty, (congrArg (·.writers) hpipe).trans ?_⟩
    show r.ends.pipe.writers - 1 = 0
    rw [h.writers]

/-- The reader stays at the end as long as no handle that was shut down is used again. -/
theorem AtEnd.act (h : r.AtEnd) (hcounted : Counted as r) {a : PipeAction} (ha : r.ends.Allows a)
    (hspares : ¬r.ends.Revives a) : (r.act a).AtEnd := by
  cases a with
  | write i who data =>
    obtain rfl : data = [] := not_not.1 fun hdata => hspares ⟨h.shut hcounted ha, hdata⟩
    rwa [PipeRecord.act, wrote_nil]
  | writeAll i who data =>
    obtain rfl : data = [] := not_not.1 fun hdata => hspares ⟨h.shut hcounted ha, hdata⟩
    rcases r.act_writeAll_cases i who [] with hact | ⟨n, hact⟩
    · rwa [hact, wrote_nil]
    · rwa [hact, wrote_nil, List.drop_nil, wrote_nil]
  | clone i => exact absurd (h.shut hcounted ha) hspares
  | shutdown i => exact h.release i .shut
  | drop i => exact h.release i .dropped
  | read who count =>
    rw [PipeRecord.act, h.read]
    exact ⟨h.empty, h.writers⟩
  | dropReader => exact ⟨rfl, h.writers⟩

/-- No actions but those that revive a handle take the end back. -/
theorem AtEnd.after (h : r.AtEnd) (hkept : Kept capacity as r) (hbs : r.Each (fun e a => e.Allows a ∧ ¬e.Revives a) bs) :
    (r.after bs).AtEnd := by
  induction bs generalizing as r with
  | nil => exact h
  | cons b bs ih =>
    obtain ⟨⟨hallows, hspares⟩, hbs⟩ := hbs
    exact ih (h.act hkept.toCounted hallows hspares) ⟨hkept.toStocked.act hallows, hkept.toCounted.act hallows⟩ hbs

/-- Once a read of some size found the end, so does every later one, whatever is done to the pipe in between, as long as
no handle that was shut down is cloned or written through. -/
theorem end_final {capacity : Nat} {as bs : List PipeAction} {who who' : Waker} {count count' : Nat}
    (has : (start capacity).Each PipeEnds.Allows as) (hcount : 0 < count)
    (hread : (((start capacity).after as).ends.read who count).1 = .bytes [])
    (hbs : (((start capacity).after as).act (.read who count)).Each (fun e a => e.Allows a ∧ ¬e.Revives a) bs) :
    (((((start capacity).after as).act (.read who count)).after bs).ends.read who' count').1 = .bytes [] := by
  have hkept : Kept capacity as ((start capacity).after as) := (kept_start capacity).after has
  have hend := hkept.atEnd hcount hread
  have hsame : ((start capacity).after as).act (.read who count) = (start capacity).after as := by
    rw [act, hend.read]
    simp [ReadPoll.data]
  rw [hsame] at hbs ⊢
  rw [(hend.after hkept hbs).read]

/-- A handle is shut down and the end is found; the handle is then shut down again and dropped, and the end is found
again. -/
theorem end_final_dropped :
    let r := (start 64).after [.write 0 0 [98], .shutdown 0, .read 0 4]
    (r.ends.read 0 4).1 = .bytes [] ∧
    (((r.act (.read 0 4)).after [.shutdown 0, .write 0 0 [], .drop 0]).ends.read 0 4).1 = .bytes [] :=
  ⟨rfl, @end_final 64 [.write 0 0 [98], .shutdown 0, .read 0 4] _ _ _ 4 _ ⟨rfl, rfl, rfl, trivial⟩ (by decide) rfl
    ⟨⟨rfl, nofun⟩, ⟨rfl, fun h => h.2 rfl⟩, ⟨rfl, nofun⟩, trivial⟩⟩

/-- What is written through a handle that was shut down is delivered after the end, and a clone of such a handle makes
the reader wait again. -/
theorem end_revived :
    let r := (start 64).after [.shutdown 0]
    (r.ends.read 0 4).1 = .bytes [] ∧
      ((r.after [.read 0 4, .write 0 0 [120]]).ends.read 0 4).1 = .bytes [120] ∧
      ((r.after [.read 0 4, .clone 0]).ends.read 0 4).1 = .pending ∧
      (start 64).Each PipeEnds.Allows [.shutdown 0, .read 0 4, .write 0 0 [120], .clone 0] :=
  ⟨rfl, rfl, rfl, rfl, rfl, rfl, rfl, trivial⟩

end PipeRecord

end DualShell
