import DualShell.Eval.Stream
import DualShell.Proofs.Stream.Port

/-!
# Steps towards an item

A consumer of both streams of a port takes items as they come, from whichever stream it prefers at each step. A line
goes up to the first newline after the bytes that were looked at before (`LineReader.line_cuts`), so a step takes the
first value, or the bytes of the first line, or nothing; and it finds that a stream has ended only when nothing is left
of it and nothing will come. What a step can do is said once (`Port.ItemStep`), and it is all that steps do
(`Port.item_step`).
-/

namespace DualShell

/-! ## Lines of bytes -/

/-- The lines of bytes that are all there; `started` is the beginning of the first one, latest byte first. -/
def linesOf (started : Bytes) : Bytes → List String
  | [] => if started.isEmpty then [] else [Utf8.decodeLenient started.reverse]
  | b :: bs => if b == 10 then endedLine started.reverse :: linesOf [] bs else linesOf (b :: started) bs

/-- A newline is the end of a line, whatever follows. -/
theorem linesOf_append (started front rest : Bytes) :
    linesOf started (front ++ 10 :: rest) = linesOf started (front ++ [10]) ++ linesOf [] rest := by
  induction front generalizing started with
  | nil => rfl
  | cons b front ih =>
    simp only [List.cons_append, linesOf]
    split
    · rw [ih, List.cons_append]
    · exact ih _

/-- Bytes that end in a newline are one line. -/
theorem linesOf_ended {started front : Bytes} (h : 10 ∉ front) :
    linesOf started (front ++ [10]) = [endedLine (started.reverse ++ front)] := by
  induction front generalizing started with
  | nil => simp [linesOf]
  | cons b front ih =>
    have hb : (b == 10) = false := beq_eq_false_iff_ne.mpr fun hb => h (hb ▸ List.mem_cons_self)
    simp only [List.cons_append, linesOf, hb]
    rw [if_neg Bool.false_ne_true, ih fun hf => h (List.mem_cons_of_mem _ hf)]
    simp

/-- Bytes without a newline are one line, too, if there are any. -/
theorem linesOf_unended {started raw : Bytes} (h : 10 ∉ raw) (hne : started ++ raw ≠ []) :
    linesOf started raw = [Utf8.decodeLenient (started.reverse ++ raw)] := by
  induction raw generalizing started with
  | nil =>
    rw [List.append_nil] at hne
    simp [linesOf, hne]
  | cons b raw ih =>
    have hb : (b == 10) = false := beq_eq_false_iff_ne.mpr fun hb => h (hb ▸ List.mem_cons_self)
    simp only [linesOf, hb]
    rw [if_neg Bool.false_ne_true, ih (fun hr => h (List.mem_cons_of_mem _ hr)) (by simp)]
    simp

/-- What stands before the first newline holds none. -/
theorem splitLine_front {bytes front rest : Bytes} (h : splitLine bytes = some (front, rest)) : 10 ∉ front := by
  induction bytes generalizing front rest with
  | nil => nomatch h
  | cons b bs ih =>
    unfold splitLine at h
    split at h
    · cases h
      exact List.not_mem_nil
    · rename_i hb
      split at h
      · nomatch h
      · rename_i line rest' hrest
        cases h
        rintro (_ | ⟨_, hmem⟩)
        · exact hb (beq_self_eq_true _)
        · exact ih hrest hmem

/-- Bytes without a newline are not split. -/
theorem splitLine_eq_none {bytes : Bytes} (h : splitLine bytes = none) : 10 ∉ bytes := by
  induction bytes with
  | nil => exact List.not_mem_nil
  | cons b bs ih =>
    unfold splitLine at h
    split at h
    · cases h
    · rename_i hb
      split at h
      · rename_i hrest
        rintro (_ | ⟨_, hmem⟩)
        · exact hb (beq_self_eq_true _)
        · exact ih hrest hmem
      · cases h

/-! ## One step towards a line -/

/-- The bytes of one line, of which some were looked at before: up to the first newline after those, or all the bytes
that are left once no more come. -/
def CutsLine (past : Prop) (begun : Bytes) (text : String) (raw rest : Bytes) : Prop :=
  ∃ front, 10 ∉ front ∧ ((raw = begun ++ front ++ [10] ∧ text = endedLine (begun ++ front)) ∨
    (raw = begun ++ front ∧ raw ≠ [] ∧ rest = [] ∧ past ∧ text = Utf8.decodeLenient raw))

/-- A line that is cut takes some bytes. -/
theorem CutsLine.ne_nil {past : Prop} {begun : Bytes} {text : String} {raw rest : Bytes}
    (h : CutsLine past begun text raw rest) : raw ≠ [] := by
  obtain ⟨front, -, ⟨rfl, -⟩ | ⟨-, hne, -⟩⟩ := h
  · exact List.append_ne_nil_of_right_ne_nil _ (List.cons_ne_nil _ _)
  · exact hne

/-- More bytes were looked at, and no newline was among them. -/
def LooksAt (begun begun' : Bytes) : Prop := ∃ front, 10 ∉ front ∧ begun' = begun ++ front

theorem LooksAt.refl (begun : Bytes) : LooksAt begun begun := ⟨[], List.not_mem_nil, (List.append_nil _).symm⟩

theorem LooksAt.trans {a b c : Bytes} (h : LooksAt a b) (h' : LooksAt b c) : LooksAt a c := by
  obtain ⟨front, hfront, rfl⟩ := h
  obtain ⟨front', hfront', rfl⟩ := h'
  exact ⟨front ++ front', by simp [hfront, hfront'], List.append_assoc ..⟩

/-- What a step towards a line does to the bytes that were looked at and to those that are unread; `past` says that no
more come. -/
def Step.Cuts (past : Prop) (begun begun' unread unread' : Bytes) : Step (Option String) → Prop
  | .done none => unread = [] ∧ unread' = [] ∧ past
  | .done (some text) => begun' = [] ∧ ∃ raw, unread = raw ++ unread' ∧ CutsLine past begun text raw unread'
  | .blocked => unread' = unread ∧ begun' = begun ∧ unread = begun ∧ ¬past
  | .more | .failed _ => unread' = unread ∧ LooksAt begun begun'

namespace LineReader

variable {σ : Type} {fetch : Nat → σ → Fetch × σ} {coming : σ → Bytes} {r : LineReader} {s : σ} {past : Prop}

/-- The bytes that were looked at. -/
def begun (r : LineReader) : Bytes := r.started.reverse

/-- A line goes up to the first newline that was not looked at before. -/
theorem line_cuts (h : Supplies fetch coming) (hover : ∀ {s'}, fetch fetchSize s = (.bytes [], s') → past)
    (hwait : ∀ {s'}, fetch fetchSize s = (.pending, s') → coming s = [] ∧ ¬past) :
    (line fetch r s).1.Cuts past r.begun (line fetch r s).2.1.begun (r.held ++ coming s)
      ((line fetch r s).2.1.held ++ coming (line fetch r s).2.2) := by
  unfold line
  split
  · rename_i hahead
    have hahead : r.ahead = [] := by simpa using hahead
    split
    · rename_i hfetch
      obtain ⟨hnil, hopen⟩ := hwait hfetch
      exact ⟨congrArg (r.held ++ ·) (h.pending hfetch), rfl, by simp [held, begun, hahead, hnil], hopen⟩
    · rename_i hfetch
      exact ⟨congrArg (r.held ++ ·) (h.failed hfetch), .refl _⟩
    · rename_i data s' hfetch
      obtain ⟨hcoming, hend⟩ := h.bytes (by decide) hfetch
      split
      · rename_i hdata
        obtain rfl : data = [] := by simpa using hdata
        have hcoming' := hend rfl
        rw [hcoming, hcoming']
        split
        · rename_i hempty
          have hempty : r.started = [] := by simpa using hempty
          exact ⟨by simp [held, hempty, hahead], by simp [held, hempty, hahead, hcoming'], hover hfetch⟩
        · rename_i hempty
          refine ⟨rfl, r.started.reverse, by simp [held, hahead, hcoming'], [], List.not_mem_nil,
            .inr ⟨(List.append_nil _).symm, by simpa using hempty, ?_, hover hfetch, rfl⟩⟩
          simp [held, hahead, hcoming']
      · exact ⟨by simp [held, hahead, hcoming], .refl _⟩
  · split
    · rename_i front rest hsplit
      exact ⟨rfl, r.started.reverse ++ front ++ [10], by simp [held, splitLine_eq_some hsplit], front,
        splitLine_front hsplit, .inl ⟨rfl, by simp [pass, begun]⟩⟩
    · rename_i hsplit
      exact ⟨by simp [held, pass], r.ahead, splitLine_eq_none hsplit, by simp [begun, pass]⟩

/-- How much there is to do before a read of a line is held up: to fetch bytes, and to look at them. -/
def work (coming : σ → Bytes) (r : LineReader) (s : σ) : Nat := 2 * (coming s).length + r.ahead.length

/-- A step towards a line that wants more leaves less to be done. -/
theorem line_more (h : Supplies fetch coming) {r' : LineReader} {s' : σ} (hstep : line fetch r s = (.more, r', s')) :
    work coming r' s' < work coming r s := by
  unfold line at hstep
  unfold work
  split at hstep
  · split at hstep
    · nomatch hstep
    · nomatch hstep
    · rename_i data s₁ hfetch
      obtain ⟨hcoming, -⟩ := h.bytes (by decide) hfetch
      split at hstep
      · split at hstep <;> nomatch hstep
      · rename_i hdata
        cases hstep
        have hlength : 0 < data.length := List.length_pos_of_ne_nil (by simpa using hdata)
        rw [hcoming, List.length_append]
        dsimp only
        omega
  · rename_i hahead
    split at hstep
    · nomatch hstep
    · cases hstep
      have hlength : 0 < r.ahead.length := List.length_pos_of_ne_nil (by simpa using hahead)
      dsimp only [List.length_nil]
      omega

/-- A step towards a line that waits leaves as much to be done. -/
theorem line_blocked (h : Supplies fetch coming) {r' : LineReader} {s' : σ} (hstep : line fetch r s = (.blocked, r', s')) :
    work coming r' s' = work coming r s := by
  unfold line at hstep
  split at hstep
  · split at hstep
    · rename_i hfetch
      cases hstep
      rw [work, work, h.pending hfetch]
    · nomatch hstep
    · split at hstep
      · split at hstep <;> nomatch hstep
      · nomatch hstep
  · split at hstep <;> nomatch hstep

end LineReader

/-! ## Ports with both streams -/

namespace Port

/-- The values that wait at a port; there are none at a file. -/
def queued : Port → List Value
  | .channel c => c.values.items.toList
  | .file .. => []

/-- Nothing more comes: all shares of the producer's end are gone. What there is in a file is there at once. -/
def Over : Port → Prop
  | .channel c => c.outlets = 0
  | .file .. => True

/-- The bytes of the next line that were looked at before. -/
def begun : Port → Bytes
  | .channel c => c.reader.begun
  | .file _ h => h.reader.begun

/-- The two streams of a channel count the same shares of the producer's end. -/
def Coherent : Port → Prop
  | .channel c => c.values.senders = c.outlets ∧ c.pipe.writers = min c.outlets 1
  | .file .. => True

/-- A step towards the next item: of the preferred stream, or of the other one. A file has lines only. -/
def item (prefer : Side) (who : TaskId) (m : Merging) : Port → Step (Option Value) × Merging × Port
  | .channel c => ((c.item prefer who m).1, (c.item prefer who m).2.1, .channel (c.item prefer who m).2.2)
  | .file files h => (((Port.file files h).line who).1.map (Option.map .string), m, ((Port.file files h).line who).2)

/-- How much there is to do before lines are held up. -/
def work : Port → Nat
  | .channel c => c.reader.work BytePipe.coming c.pipe
  | .file files h => h.reader.work (OpenFile.coming files) h

/-- What a step of a consumer of both streams can do. -/
inductive ItemStep (p : Port) (m : Merging) : Step (Option Value) → Merging → Port → Prop
  | value {v : Value} {p' : Port} (hqueued : p.queued = v :: p'.queued) (hunread : p'.unread = p.unread)
      (hbegun : p'.begun = p.begun) : ItemStep p m (.done (some v)) m p'
  | line {text : String} {raw : Bytes} {p' : Port} (hqueued : p'.queued = p.queued) (hunread : p.unread = raw ++ p'.unread)
      (hbegun : p'.begun = []) (hcut : CutsLine p.Over p.begun text raw p'.unread) :
      ItemStep p m (.done (some (.string text))) m p'
  /-- One of the streams turns out to have ended. -/
  | valuesEnd {p' : Port} (hopen : m.valuesOpen = true) (hqueued : p.queued = []) (hqueued' : p'.queued = [])
      (hunread : p'.unread = p.unread) (hbegun : p'.begun = p.begun) (hover : p.Over) (hwork : p'.work ≤ p.work) :
      ItemStep p m .more { m with valuesOpen := false } p'
  | linesEnd {p' : Port} (hopen : m.linesOpen = true) (hqueued : p'.queued = p.queued) (hunread : p.unread = [])
      (hunread' : p'.unread = []) (hover : p.Over) (hwork : p'.work ≤ p.work) :
      ItemStep p m .more { m with linesOpen := false } p'
  /-- Both have. -/
  | ended {p' : Port} (hclosed : (m.valuesOpen = false ∧ m.linesOpen = false) ∨ (p.queued = [] ∧ p.unread = [] ∧ p.Over)) :
      ItemStep p m (.done none) m p'
  | more {p' : Port} (hqueued : p'.queued = p.queued) (hunread : p'.unread = p.unread) (hbegun : LooksAt p.begun p'.begun)
      (hwork : p'.work < p.work) : ItemStep p m .more m p'
  | blocked {p' : Port} (hqueued : p'.queued = p.queued) (hunread : p'.unread = p.unread) (hbegun : p'.begun = p.begun)
      (hvalues : m.valuesOpen = true → p.queued = [] ∧ ¬p.Over) (hlines : m.linesOpen = true → p.unread = p.begun ∧ ¬p.Over)
      (hopen : m.valuesOpen = true ∨ m.linesOpen = true) : ItemStep p m .blocked m p'
  | failed {cause : Cause} {p' : Port} (hqueued : p'.queued = p.queued) (hunread : p'.unread = p.unread)
      (hbegun : LooksAt p.begun p'.begun) : ItemStep p m (.failed cause) m p'

/-- A port has been used by its consumer only. -/
structure Stays (p p' : Port) : Prop where
  coherent : p'.Coherent
  past : p'.Over ↔ p.Over

/-- Nothing is gone from a port, and nothing has come. -/
structure Idles (p p' : Port) : Prop extends Stays p p' where
  queued : p'.queued = p.queued
  unread : p'.unread = p.unread
  begun : p'.begun = p.begun
  work : p'.work ≤ p.work

/-- A port in order idles where it is. -/
theorem Idles.refl {p : Port} (h : p.Coherent) : p.Idles p := ⟨⟨h, .rfl⟩, rfl, rfl, rfl, Nat.le_refl _⟩

/-- A step that nothing came before. -/
theorem Idles.step {p q p' : Port} {m m' : Merging} {result : Step (Option Value)} (h : p.Idles q)
    (hstep : q.ItemStep m result m' p') : p.ItemStep m result m' p' := by
  cases hstep with
  | value hqueued hunread hbegun => exact .value (h.queued ▸ hqueued) (hunread.trans h.unread) (hbegun.trans h.begun)
  | line hqueued hunread hbegun hcut =>
    exact .line (hqueued.trans h.queued) (h.unread ▸ hunread) hbegun (h.begun ▸ propext h.past ▸ hcut)
  | valuesEnd hopen hqueued hqueued' hunread hbegun hover hwork =>
    exact .valuesEnd hopen (h.queued ▸ hqueued) hqueued' (hunread.trans h.unread) (hbegun.trans h.begun) (h.past.mp hover)
      (Nat.le_trans hwork h.work)
  | linesEnd hopen hqueued hunread hunread' hover hwork =>
    exact .linesEnd hopen (hqueued.trans h.queued) (h.unread ▸ hunread) hunread' (h.past.mp hover)
      (Nat.le_trans hwork h.work)
  | ended hclosed => exact .ended (hclosed.imp_right fun hc => ⟨h.queued ▸ hc.1, h.unread ▸ hc.2.1, h.past.mp hc.2.2⟩)
  | more hqueued hunread hbegun hwork =>
    exact .more (hqueued.trans h.queued) (hunread.trans h.unread) (h.begun ▸ hbegun) (Nat.lt_of_lt_of_le hwork h.work)
  | blocked hqueued hunread hbegun hvalues hlines hopen =>
    refine .blocked (hqueued.trans h.queued) (hunread.trans h.unread) (hbegun.trans h.begun) (fun hv => ?_)
      (fun hl => ?_) hopen
    · exact ⟨h.queued ▸ (hvalues hv).1, fun ho => (hvalues hv).2 (h.past.mpr ho)⟩
    · exact ⟨h.unread ▸ h.begun ▸ (hlines hl).1, fun ho => (hlines hl).2 (h.past.mpr ho)⟩
  | failed hqueued hunread hbegun => exact .failed (hqueued.trans h.queued) (hunread.trans h.unread) (h.begun ▸ hbegun)

end Port

/-- Whether a step can do nothing before someone else moves. -/
def Step.isBlocked {α : Type} : Step α → Bool
  | .blocked => true
  | .more | .done _ | .failed _ => false

/-! ## Steps of a channel -/

/-- A step towards a line fetches once or not at all. -/
theorem LineReader.line_supply {σ : Type} (fetch : Nat → σ → Fetch × σ) (r : LineReader) (s : σ) :
    (line fetch r s).2.2 = s ∨ (line fetch r s).2.2 = (fetch fetchSize s).2 := by
  unfold line
  split
  · split
    · rename_i hfetch
      exact .inr (congrArg Prod.snd hfetch).symm
    · rename_i hfetch
      exact .inr (congrArg Prod.snd hfetch).symm
    · rename_i hfetch
      split
      · split <;> exact .inr (congrArg Prod.snd hfetch).symm
      · exact .inr (congrArg Prod.snd hfetch).symm
  · split <;> exact .inl rfl

/-- A fetch finds the end, waits, or takes bytes from the front. -/
theorem BytePipe.fetch_cases {p : BytePipe} (who : Waker) {count : Nat} (hcount : 0 < count) :
    (p.writers = 0 ∧ BytePipe.fetch who count p = (.bytes [], p)) ∨
      (p.coming = [] ∧ p.writers ≠ 0 ∧ BytePipe.fetch who count p = (.pending, { p with parkedReader := some who })) ∨
      ∃ data buffer, data ≠ [] ∧ BytePipe.fetch who count p = (.bytes data, { p with buffer, parkedWriters := [] }) := by
  rcases BytePipe.read_cases (p := p) (w := who) hcount with ⟨-, hwriters, hread⟩ | ⟨hnil, hwriters, hread⟩ | ⟨hne, hread⟩
  · exact .inl ⟨hwriters, by rw [BytePipe.fetch, hread]⟩
  · exact .inr (.inl ⟨hnil, hwriters, by rw [BytePipe.fetch, hread]⟩)
  · exact .inr (.inr ⟨_, _, hne, by rw [BytePipe.fetch, hread]⟩)

/-- A value is received, or the receiver waits, or finds the end. -/
theorem ValueQueue.recv_cases (q : ValueQueue) :
    (q.items.toList = [] ∧ q.senders = 0 ∧ q.recv = (.ended, q)) ∨
      (q.items.toList = [] ∧ q.senders ≠ 0 ∧ q.recv = (.pending, q)) ∨
      ∃ v items, q.items.toList = v :: items.toList ∧ q.recv = (.value v, { q with items }) := by
  have hfst := Queue.take_fst q.items 1
  have hsnd := Queue.toList_take_snd q.items 1
  unfold recv
  rcases htake : q.items.take 1 with ⟨taken, items⟩
  rw [htake] at hfst hsnd
  cases hlist : q.items.toList with
  | nil =>
    obtain rfl : taken = [] := by simpa [hlist] using hfst
    by_cases hsenders : q.senders = 0
    · exact .inl ⟨rfl, hsenders, by simp [hsenders]⟩
    · exact .inr (.inl ⟨rfl, hsenders, by simp [hsenders]⟩)
  | cons v rest =>
    obtain rfl : taken = [v] := by simpa [hlist] using hfst
    exact .inr (.inr ⟨v, items, by simp [hsnd, hlist], rfl⟩)

/-- A value that is accepted joins the others at the back. -/
theorem ValueQueue.put_items {q : ValueQueue} {v : Value} (h : (q.put v).1 = .accepted) :
    (q.put v).2.items.toList = q.items.toList ++ [v] := by
  unfold put at h ⊢
  split at h
  · nomatch h
  split at h
  · nomatch h
  · rename_i halive hroom
    simp [halive, hroom]

/-- A value that is not accepted leaves the queue. -/
theorem ValueQueue.refused_items {q : ValueQueue} {v : Value} (h : (q.put v).1 = .pending ∨ (q.put v).1 = .broken) :
    (q.put v).2.items.toList = q.items.toList := by
  unfold put at h ⊢
  split
  · rfl
  split
  · rfl
  · rename_i halive hroom
    simp [halive, hroom] at h

/-- To put a value leaves the senders. -/
theorem ValueQueue.put_senders {q : ValueQueue} {v : Value} : (q.put v).2.senders = q.senders := by
  unfold put
  split
  · rfl
  split <;> rfl

/-- To write bytes leaves the writers. -/
theorem BytePipe.write_writers {p : BytePipe} {who : Waker} {data : Bytes} : (p.write who data).2.writers = p.writers := by
  unfold write
  split
  · rfl
  split
  · rfl
  split
  · exact parkWriter_writers
  · rfl

namespace Channel

variable {c : Channel} {m : Merging} {who : TaskId}

/-- To read is not to write. -/
theorem line_writers (c : Channel) (who : TaskId) : (c.line who).2.pipe.writers = c.pipe.writers := by
  change (LineReader.line (BytePipe.fetch who) c.reader c.pipe).2.2.writers = _
  rcases LineReader.line_supply (BytePipe.fetch who) c.reader c.pipe with h | h
  · rw [h]
  · rw [h]
    rcases c.pipe.fetch_cases who (show 0 < fetchSize by decide) with ⟨-, hfetch⟩ | ⟨-, -, hfetch⟩ | ⟨_, _, -,
      hfetch⟩ <;> rw [hfetch]

/-- A step towards a line, at a port with both streams. -/
theorem line_step (hc : (Port.channel c).Coherent) (who : TaskId) :
    (c.line who).1.Cuts (Port.channel c).Over (Port.channel c).begun (Port.channel (c.line who).2).begun
    (Port.channel c).unread
        (Port.channel (c.line who).2).unread ∧ (Port.channel c).Stays (.channel (c.line who).2) := by
  obtain ⟨hsenders, hwriters⟩ := hc
  have hover : c.pipe.writers = 0 ↔ c.outlets = 0 := by omega
  have hend : ∀ {p'}, BytePipe.fetch who fetchSize c.pipe = (.bytes [], p') → c.outlets = 0 := by
    intro p' hfetch
    rcases c.pipe.fetch_cases who (show 0 < fetchSize by decide) with ⟨h, -⟩ | ⟨-, -, h⟩ | ⟨data, _, hne, h⟩
    · exact hover.mp h
    · rw [h] at hfetch
      nomatch hfetch
    · rw [h] at hfetch
      cases hfetch
      exact absurd rfl hne
  have hwait : ∀ {p'}, BytePipe.fetch who fetchSize c.pipe = (.pending, p') → c.pipe.coming = [] ∧ ¬c.outlets = 0 := by
    intro p' hfetch
    rcases c.pipe.fetch_cases who (show 0 < fetchSize by decide) with ⟨-, h⟩ | ⟨hnil, hne, -⟩ | ⟨data, _, -, h⟩
    · rw [h] at hfetch
      nomatch hfetch
    · exact ⟨hnil, fun h => hne (hover.mpr h)⟩
    · rw [h] at hfetch
      nomatch hfetch
  have hcuts := LineReader.line_cuts (r := c.reader) (BytePipe.supplies who) hend hwait
  exact ⟨hcuts, ⟨hsenders, (line_writers c who).trans hwriters⟩, .rfl⟩

/-- A step towards a value is blocked and leaves the channel as it is, or it is a step of a consumer of both streams. -/
theorem valueItem_step (hc : (Port.channel c).Coherent) (m : Merging) :
    (valueItem m c = (.blocked, m, c) ∧ (m.valuesOpen = true → (Port.channel c).queued = [] ∧ ¬(Port.channel c).Over)) ∨
      (valueItem m c).1.isBlocked = false ∧
        (Port.channel c).ItemStep m (valueItem m c).1 (valueItem m c).2.1 (.channel (valueItem m c).2.2) ∧
        (Port.channel c).Stays (.channel (valueItem m c).2.2) := by
  have hsenders := hc.1
  unfold valueItem
  split
  · rename_i hopen
    rcases c.values.recv_cases with ⟨hnil, hzero, hrecv⟩ | ⟨hnil, hne, hrecv⟩ | ⟨v, items, hcons, hrecv⟩
    · simp only [recv, hrecv]
      exact .inr ⟨rfl, .valuesEnd hopen hnil hnil rfl rfl (hsenders.symm.trans hzero) (Nat.le_refl _), hc, .rfl⟩
    · simp only [recv, hrecv]
      exact .inl ⟨trivial, fun _ => ⟨hnil, fun hover => hne (hsenders.trans hover)⟩⟩
    · simp only [recv, hrecv]
      exact .inr ⟨rfl, .value hcons rfl rfl, hc, .rfl⟩
  · rename_i hopen
    exact .inl ⟨rfl, fun h => absurd h hopen⟩

/-- A step towards a line is blocked and leaves what is at the channel, or it is a step of a consumer of both streams. -/
theorem lineItem_step (hc : (Port.channel c).Coherent) (who : Waker) (m : Merging) :
    (∃ c', lineItem who m c = (.blocked, m, c') ∧ (Port.channel c).Idles (.channel c') ∧
        (m.linesOpen = true → (Port.channel c).unread = (Port.channel c).begun ∧ ¬(Port.channel c).Over)) ∨
      (lineItem who m c).1.isBlocked = false ∧
        (Port.channel c).ItemStep m (lineItem who m c).1 (lineItem who m c).2.1 (.channel (lineItem who m c).2.2) ∧
        (Port.channel c).Stays (.channel (lineItem who m c).2.2) := by
  have hstep := line_step hc who
  unfold lineItem
  split
  · rename_i hopen
    rcases hline : c.line who with ⟨result, c'⟩
    rw [hline] at hstep
    obtain ⟨hcuts, hstays⟩ := hstep
    have hqueued : (Port.channel c').queued = (Port.channel c).queued := congrArg (·.2.values.items.toList) hline.symm
    have hread : LineReader.line (BytePipe.fetch who) c.reader c.pipe = (result, c'.reader, c'.pipe) := by
      rw [← show (c.line who).1 = result from congrArg Prod.fst hline,
        ← show (c.line who).2 = c' from congrArg Prod.snd hline]
      rfl
    rcases result with _ | _ | (_ | text) | cause
    · obtain ⟨hunread, hbegun, hlooked, hopen⟩ := hcuts
      have hwork := LineReader.line_blocked (BytePipe.supplies who) hread
      exact .inl ⟨c', rfl, ⟨hstays, hqueued, hunread, hbegun, Nat.le_of_eq hwork⟩, fun _ => ⟨hlooked, hopen⟩⟩
    · have hwork := LineReader.line_more (BytePipe.supplies who) hread
      exact .inr ⟨rfl, .more hqueued hcuts.1 hcuts.2 hwork, hstays⟩
    · obtain ⟨hunread, hunread', hover⟩ := hcuts
      have hwork : c'.reader.work BytePipe.coming c'.pipe = 0 := by
        obtain ⟨hheld, hcoming⟩ := List.append_eq_nil_iff.mp hunread'
        have hahead := (List.append_eq_nil_iff.mp hheld).2
        simp only at hcoming hahead
        simp only [LineReader.work, hcoming, hahead, List.length_nil]
      exact .inr ⟨rfl,
        .linesEnd hopen hqueued hunread hunread' hover (Nat.le_trans (Nat.le_of_eq hwork) (Nat.zero_le _)), hstays⟩
    · obtain ⟨hbegun, raw, hunread, hcut⟩ := hcuts
      exact .inr ⟨rfl, .line hqueued hunread hbegun hcut, hstays⟩
    · exact .inr ⟨rfl, .failed hqueued hcuts.1 hcuts.2, hstays⟩
  · rename_i hopen
    exact .inl ⟨c, rfl, .refl hc, fun h => absurd h hopen⟩

/-- A step of a channel towards an item is one of its port. -/
theorem item_step (hc : (Port.channel c).Coherent) (prefer : Side) (who : Waker) (m : Merging) :
    (Port.channel c).ItemStep m (c.item prefer who m).1 (c.item prefer who m).2.1 (.channel (c.item prefer who m).2.2) ∧
      (Port.channel c).Stays (.channel (c.item prefer who m).2.2) := by
  unfold item
  split
  · rename_i hclosed
    exact ⟨.ended (.inl (by simpa using hclosed)), hc, .rfl⟩
  · rename_i hopen
    have hopen : m.valuesOpen = true ∨ m.linesOpen = true := by
      cases hv : m.valuesOpen <;> cases hl : m.linesOpen <;> simp [hv, hl] at hopen ⊢
    cases prefer with
    | values =>
      dsimp only
      obtain ⟨hblocked, hvalues⟩ | ⟨hgo, hstep⟩ := valueItem_step hc m
      · rw [hblocked]
        obtain ⟨c', hblocked', hidle, hlines⟩ | ⟨-, hstep⟩ := lineItem_step hc who m
        · simp only [hblocked']
          exact ⟨.blocked hidle.queued hidle.unread hidle.begun hvalues hlines hopen, hidle.toStays⟩
        · exact hstep
      · rcases hitem : valueItem m c with ⟨_ | _ | _ | _, m', c'⟩ <;> rw [hitem] at hgo hstep
        · nomatch hgo
        all_goals exact hstep
    | bytes =>
      dsimp only
      obtain ⟨c', hblocked, hidle, hlines⟩ | ⟨hgo, hstep⟩ := lineItem_step hc who m
      · rw [hblocked]
        obtain ⟨hblocked', hvalues⟩ | ⟨-, hstep, hstays⟩ := valueItem_step hidle.coherent m
        · simp only [hblocked']
          refine ⟨.blocked hidle.queued hidle.unread hidle.begun (fun hv => ?_) hlines hopen, hidle.toStays⟩
          exact ⟨hidle.queued ▸ (hvalues hv).1, fun ho => (hvalues hv).2 (hidle.past.mpr ho)⟩
        · exact ⟨hidle.step hstep, hstays.coherent, hstays.past.trans hidle.past⟩
      · rcases hitem : lineItem who m c with ⟨_ | _ | _ | _, m', c'⟩ <;> rw [hitem] at hgo hstep
        · nomatch hgo
        all_goals exact hstep

end Channel

/-! ## Steps of a port -/

namespace Port

variable {p p' : Port} {m m' : Merging}

/-- A file is read line by line. -/
theorem file_step (files : FileTree) (h : OpenFile) (who : TaskId) :
    ((Port.file files h).line who).1.Cuts True (Port.file files h).begun ((Port.file files h).line who).2.begun
    (Port.file files h).unread
      ((Port.file files h).line who).2.unread :=
  have hend : ∀ {h' : OpenFile}, World.fetchFile files fetchSize h = (.bytes [], h') → True := fun _ => trivial
  LineReader.line_cuts (r := h.reader) (OpenFile.supplies files) hend fun {h'} hfetch => by
    unfold World.fetchFile at hfetch
    split at hfetch <;> nomatch hfetch

/-- What a step of a consumer of both streams does, whatever it prefers. -/
theorem item_step (hp : p.Coherent) (prefer : Side) (who : TaskId) (m : Merging) :
    p.ItemStep m (p.item prefer who m).1 (p.item prefer who m).2.1 (p.item prefer who m).2.2 ∧
    p.Stays (p.item prefer who m).2.2 := by
  cases p with
  | channel c => exact Channel.item_step hp prefer who m
  | file files h =>
    have hcuts := file_step files h who
    rcases hread : LineReader.line (World.fetchFile files) h.reader h with ⟨result, r', h'⟩
    have hline : (Port.file files h).line who = (result, .file files { h' with reader := r' }) := by
      simp only [Port.line, Port.reading, World.readingFile, hread]
    rw [hline] at hcuts
    simp only [item, hline]
    refine ⟨?_, trivial, .rfl⟩
    rcases result with _ | _ | (_ | text) | cause
    · exact absurd trivial hcuts.2.2.2
    · have hwork := LineReader.line_more (OpenFile.supplies files) hread
      exact .more rfl hcuts.1 hcuts.2 (by exact hwork)
    · exact .ended (.inr ⟨rfl, hcuts.1, trivial⟩)
    · obtain ⟨hbegun, raw, hunread, hcut⟩ := hcuts
      exact .line rfl hunread hbegun hcut
    · exact .failed rfl hcuts.1 hcuts.2

/-- A step of a port towards an item takes a line, a value or nothing. -/
theorem item_eq {prefer : Side} {who : TaskId} {result : Step (Option Value)} (hp : p.Coherent)
    (hitem : p.item prefer who m = (result, m', p')) : p.ItemStep m result m' p' ∧ p.Stays p' := by
  have hstep := item_step hp prefer who m
  rwa [hitem] at hstep

end Port

end DualShell
