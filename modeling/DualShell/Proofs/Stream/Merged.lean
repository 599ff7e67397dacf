import DualShell.Proofs.Flow.Ends
import DualShell.Proofs.Stream.Item

/-!
# Both streams of a port as one

Whatever a consumer of both streams of a port prefers at each step, and whatever arrives meanwhile, the items it gets
are a merge of the values and of the lines of the bytes, each in its own order; what was not delivered is at the port,
also when the consumer stops; and the items end only when both streams have (`Port.merged`). A request for an item is
answered by a step of such a consumer (`World.perform_item`).
-/

namespace DualShell

namespace Port

variable {p p' : Port} {m m' : Merging}

/-! ## What others do -/

/-- What producers do at a port that is not over: bytes and values arrive, and shares of the producer's end come and go. -/
inductive Fed : Port → Bytes → List Value → Port → Prop
  /-- A write of which some bytes were accepted. -/
  | write {c c' : Channel} {who : Waker} {data : Bytes} {n : Nat} (hopen : 0 < c.outlets)
      (h : c.write who data = (.accepted n, c')) : Fed (.channel c) (data.take n) [] (.channel c')
  | put {c c' : Channel} {v : Value} (hopen : 0 < c.outlets) (h : c.put v = (.accepted, c')) :
      Fed (.channel c) [] [v] (.channel c')
  /-- A write or a value that has to wait, or comes when the consumer is gone. -/
  | writeRefused {c c' : Channel} {who : Waker} {data : Bytes} {result : WritePoll} (h : c.write who data = (result, c'))
      (hresult : result = .pending ∨ result = .broken) : Fed (.channel c) [] [] (.channel c')
  | putRefused {c c' : Channel} {v : Value} {result : PutPoll} (h : c.put v = (result, c'))
      (hresult : result = .pending ∨ result = .broken) : Fed (.channel c) [] [] (.channel c')
  | share {c : Channel} (hopen : 0 < c.outlets) : Fed (.channel c) [] [] (.channel c.share)
  | dropOutlet {c : Channel} (hopen : 0 < c.outlets) : Fed (.channel c) [] [] (.channel c.dropOutlet)

/-- A port gets the bytes that it is fed. -/
theorem Fed.gets {data : Bytes} {values : List Value} (h : p.Fed data values p') : p.Gets data p' := by
  cases h with
  | write _ h => exact .write h
  | put _ h =>
    obtain rfl := congrArg Prod.snd h
    exact .put _
  | writeRefused h hresult => exact .refused h hresult
  | putRefused h _ =>
    obtain rfl := congrArg Prod.snd h
    exact .put _
  | share => exact .share
  | dropOutlet => exact .dropOutlet

/-- Values join at the end of the queue. -/
theorem Fed.queued_eq {data : Bytes} {values : List Value} (h : p.Fed data values p') : p'.queued = p.queued ++ values := by
  cases h with
  | @put c c' v _ h =>
    obtain ⟨hresult, rfl⟩ := Prod.mk.inj h
    exact ValueQueue.put_items hresult
  | @putRefused c c' v result h hresult =>
    obtain ⟨rfl, rfl⟩ := Prod.mk.inj h
    rw [List.append_nil]
    exact ValueQueue.refused_items hresult
  | write _ h | writeRefused h =>
    obtain rfl := congrArg Prod.snd h
    exact (List.append_nil _).symm
  | share | dropOutlet => exact (List.append_nil _).symm

/-- What a line begins with does not change when a port is fed. -/
theorem Fed.begun_eq {data : Bytes} {values : List Value} (h : p.Fed data values p') : p'.begun = p.begun := by
  cases h with
  | write _ h | put _ h | writeRefused h | putRefused h =>
    obtain rfl := congrArg Prod.snd h
    rfl
  | share | dropOutlet => rfl

/-- Nothing arrives at a port that is over. -/
theorem Fed.past {data : Bytes} {values : List Value} (h : p.Fed data values p') (hover : p.Over) :
    data = [] ∧ values = [] ∧ p'.Over := by
  cases h with
  | write hopen | put hopen | share hopen | dropOutlet hopen => exact absurd hover (Nat.pos_iff_ne_zero.mp hopen)
  | writeRefused h | putRefused h =>
    obtain rfl := congrArg Prod.snd h
    exact ⟨rfl, rfl, hover⟩

/-- A port in order stays so when it is fed. -/
theorem Fed.coherent {data : Bytes} {values : List Value} (h : p.Fed data values p') (hp : p.Coherent) : p'.Coherent := by
  cases h with
  | write _ h | writeRefused h =>
    obtain rfl := congrArg Prod.snd h
    exact ⟨hp.1, BytePipe.write_writers.trans hp.2⟩
  | put _ h | putRefused h =>
    obtain rfl := congrArg Prod.snd h
    exact ⟨ValueQueue.put_senders.trans hp.1, hp.2⟩
  | @share c hopen => exact ⟨congrArg (· + 1) hp.1, hp.2.trans (by simp only [Channel.share]; omega)⟩
  | @dropOutlet c hopen =>
    refine ⟨congrArg (· - 1) hp.1, ?_⟩
    have hwriters := hp.2
    simp only [Channel.dropOutlet]
    split
    · simp_all [BytePipe.releaseWriter]
    · simp only [beq_iff_eq] at *
      omega

/-- Channels that were just made, and those that hold all they will ever hold. -/
theorem coherent_create (bytes values : Nat) : (Port.channel (.create bytes values)).Coherent := ⟨rfl, rfl⟩

/-- A channel that is closed with what it has is in order. -/
theorem coherent_closedWith (data : Bytes) (values : List Value) : (Port.channel (.closedWith data values)).Coherent :=
  ⟨rfl, rfl⟩

end Port

/-! ## The consumer -/

/-- The items of one stream. -/
def Side.of (side : Side) (items : List (Side × Value)) : List Value :=
  items.filterMap fun i => if i.1 = side then some i.2 else none

/-- An item joins those of its side. -/
theorem Side.of_snoc_same {side : Side} {items : List (Side × Value)} {v : Value} :
    side.of (items ++ [(side, v)]) = side.of items ++ [v] := by
  simp [of]

/-- An item of the other side does not matter. -/
theorem Side.of_snoc_other {side other : Side} {items : List (Side × Value)} {v : Value} (h : other ≠ side) :
    side.of (items ++ [(other, v)]) = side.of items := by
  simp [of, h]

/-- How many streams may still deliver something. -/
def Merging.streams (m : Merging) : Nat := m.valuesOpen.toNat + m.linesOpen.toNat

namespace Port

variable {p p' : Port} {m m' : Merging}

/-- What has arrived at a port and which items have been taken from it, when its consumer has taken steps in any order
with what others do: at each step it may prefer either stream. A consumer that stops takes no further steps. -/
inductive Consumed (start : Port) : (came : Bytes) → (put items : List Value) → Port → Merging → Prop
  | start : Consumed start [] [] [] start .both
  | fed {came put items p m data values p'} (h : Consumed start came put items p m) (hfed : p.Fed data values p') :
      Consumed start (came ++ data) (put ++ values) items p' m
  /-- A step goes on, has to wait or fails. -/
  | on {came put items p m result m' p'} (prefer : Side) (who : TaskId) (h : Consumed start came put items p m)
      (hstep : p.item prefer who m = (result, m', p')) (hdone : result.isDone = false) : Consumed start came put items p' m'
  | item {came put items p m v m' p'} (prefer : Side) (who : TaskId) (h : Consumed start came put items p m)
      (hstep : p.item prefer who m = (.done (some v), m', p')) : Consumed start came put (items ++ [v]) p' m'

/-- The lines of the first bytes of a port, as reads of lines give them: bytes of the first line may have been looked at
before. All the lines are ended ones, or no bytes are left at the port now, and none will come. -/
def Lines (start now : Port) (taken : Bytes) (lines : List String) : Prop :=
  (taken = [] ∧ lines = []) ∨ ∃ more, taken = start.begun ++ more ∧ lines = linesOf start.begun.reverse more ∧
    ((∃ front, more = front ++ [10]) ∨ (now.unread = [] ∧ now.Over))

/-- The items that were delivered, each told with the stream it came from, are the first values and the lines of the
first bytes. The other values and bytes are at the port now, where no newline of them was looked at. -/
structure Delivers (start : Port) (came : Bytes) (put items : List Value) (now : Port) (told : List (Side × Value))
    (taken : Bytes) : Prop where
  items : items = told.map Prod.snd
  values : Side.values.of told ++ now.queued = start.queued ++ put
  bytes : taken ++ now.unread = start.unread ++ came
  lines : ∃ lines, Side.bytes.of told = lines.map Value.string ∧ Lines start now taken lines
  fresh : taken = [] → LooksAt start.begun now.begun
  later : taken ≠ [] → 10 ∉ now.begun

/-- What holds whenever a consumer stops, or before its next step. -/
structure Merged (start : Port) (came : Bytes) (put items : List Value) (p : Port) (m : Merging) : Prop where
  delivers : ∃ told taken, start.Delivers came put items p told taken
  /-- The items end only when both streams have ended and nothing is left of them. -/
  ends : ∀ {prefer who m' p'}, p.item prefer who m = (.done none, m', p') → p.queued = [] ∧ p.unread = [] ∧ p.Over
  /-- Someone who has to wait waits for a value and for the end of the line that was begun, and more can come. -/
  waits : ∀ {prefer who m' p'}, p.item prefer who m = (.blocked, m', p') → p.queued = [] ∧ p.unread = p.begun ∧ ¬p.Over
  /-- Nobody goes on for ever without an item. -/
  goesOn : ∀ {prefer who m' p'}, p.item prefer who m = (.more, m', p') → p'.work + m'.streams < p.work + m.streams
  /-- The next consumer of both streams, and someone who reads to the end, start with what is left. -/
  coherent : p.Coherent
  left : ∀ who, p.Complete → ∃ before after, Relation.ReflTransGen (fun a b => a.toEnd who = (.more, b)) p before ∧
    before.toEnd who = (.done p.unread, after) ∧ after.unread = []

/-- What was looked at is unread. -/
theorem begun_of_unread (h : p.unread = []) : p.begun = [] := by
  cases p with
  | channel c => exact (List.append_eq_nil_iff.mp (List.append_eq_nil_iff.mp h).1).1
  | file files handle => exact (List.append_eq_nil_iff.mp (List.append_eq_nil_iff.mp h).1).1

/-- The account of a consumer: what has been delivered, and which streams it knows to have ended. -/
structure Account (start : Port) (came : Bytes) (put items : List Value) (p : Port) (m : Merging) : Prop where
  delivers : ∃ told taken, start.Delivers came put items p told taken
  coherent : p.Coherent
  values : m.valuesOpen = false → p.queued = [] ∧ p.Over
  lines : m.linesOpen = false → p.unread = [] ∧ p.Over

section

variable {start : Port} {came data : Bytes} {put items values : List Value} {told : List (Side × Value)} {taken : Bytes}

/-- Lines that were read stay so while nothing is read. -/
theorem Lines.idle {lines : List String} (h : Lines start p taken lines) (hunread : p'.unread = p.unread)
    (hover : p'.Over ↔ p.Over) : Lines start p' taken lines :=
  h.imp_right fun ⟨more, htaken, hlines, hwhole⟩ =>
    ⟨more, htaken, hlines, hwhole.imp_right fun hw => ⟨hunread ▸ hw.1, hover.mpr hw.2⟩⟩

/-- A port at which nothing was taken. -/
theorem Delivers.idle (h : start.Delivers came put items p told taken) (hqueued : p'.queued = p.queued)
    (hunread : p'.unread = p.unread)
    (hbegun : LooksAt p.begun p'.begun) (hover : p'.Over ↔ p.Over) : start.Delivers came put items p' told taken where
  items := h.items
  values := hqueued ▸ h.values
  bytes := hunread ▸ h.bytes
  lines := h.lines.imp fun _ hl => ⟨hl.1, hl.2.idle hunread hover⟩
  fresh hnil := (h.fresh hnil).trans hbegun
  later hne := by
    obtain ⟨front, hfront, hbegun⟩ := hbegun
    rw [hbegun, List.mem_append, not_or]
    exact ⟨h.later hne, hfront⟩

/-- The first value is taken. -/
theorem Delivers.value {v : Value} (h : start.Delivers came put items p told taken) (hqueued : p.queued = v :: p'.queued)
    (hunread : p'.unread = p.unread) (hbegun : p'.begun = p.begun) (hover : p'.Over ↔ p.Over) :
    start.Delivers came put (items ++ [v]) p' (told ++ [(.values, v)]) taken where
  items := by rw [h.items, List.map_append]; rfl
  values := by rw [Side.of_snoc_same, List.append_assoc, ← h.values, hqueued, List.singleton_append]
  bytes := hunread ▸ h.bytes
  lines := by
    rw [Side.of_snoc_other (by decide)]
    exact h.lines.imp fun _ hl => ⟨hl.1, hl.2.idle hunread hover⟩
  fresh hnil := hbegun ▸ h.fresh hnil
  later hne := hbegun ▸ h.later hne

/-- The first line is taken: it is the first of all, or it comes after ended lines. -/
theorem Lines.snoc {text : String} {raw : Bytes} {lines : List String} (h : Lines start p taken lines)
    (hfresh : taken = [] → LooksAt start.begun p.begun)
    (hlater : taken ≠ [] → 10 ∉ p.begun) (hunread : p.unread = raw ++ p'.unread) (hover : p'.Over ↔ p.Over)
    (hcut : CutsLine p.Over p.begun text raw p'.unread) : Lines start p' (taken ++ raw) (lines ++ [text]) := by
  have hraw := hcut.ne_nil
  obtain ⟨front, hfront, hcut⟩ := hcut
  obtain ⟨rfl, rfl⟩ | ⟨more, rfl, rfl, ⟨before, rfl⟩ | ⟨hnil, -⟩⟩ := h
  · obtain ⟨looked, hlooked, hbegun⟩ := hfresh rfl
    have hmore : 10 ∉ looked ++ front := by simp [hlooked, hfront]
    obtain ⟨rfl, rfl⟩ | ⟨rfl, -, hrest, hover', rfl⟩ := hcut
    · refine .inr ⟨looked ++ front ++ [10], by simp [hbegun], ?_, .inl ⟨_, rfl⟩⟩
      rw [linesOf_ended hmore, List.reverse_reverse, hbegun, List.append_assoc]
      rfl
    · refine .inr ⟨looked ++ front, by simp [hbegun], ?_, .inr ⟨hrest, hover.mpr hover'⟩⟩
      rw [linesOf_unended hmore (by simpa [hbegun] using hraw), List.reverse_reverse, hbegun, List.append_assoc]
      rfl
  · have hmore : 10 ∉ p.begun ++ front := by simp [hlater (by simp), hfront]
    obtain ⟨rfl, rfl⟩ | ⟨rfl, -, hrest, hover', rfl⟩ := hcut
    · refine .inr ⟨before ++ [10] ++ (p.begun ++ front ++ [10]), by simp, ?_,
        .inl ⟨before ++ [10] ++ (p.begun ++ front), by simp⟩⟩
      have hlines : linesOf start.begun.reverse (before ++ [10] ++ (p.begun ++ front ++ [10])) =
          linesOf start.begun.reverse (before ++ [10]) ++ linesOf [] (p.begun ++ front ++ [10]) := by
        rw [List.append_assoc before, List.singleton_append]
        exact linesOf_append _ before _
      rw [hlines, linesOf_ended hmore]
      rfl
    · refine .inr ⟨before ++ [10] ++ (p.begun ++ front), by simp, ?_, .inr ⟨hrest, hover.mpr hover'⟩⟩
      have hlines : linesOf start.begun.reverse (before ++ [10] ++ (p.begun ++ front)) =
          linesOf start.begun.reverse (before ++ [10]) ++ linesOf [] (p.begun ++ front) := by
        rw [List.append_assoc before, List.singleton_append]
        exact linesOf_append _ before _
      rw [hlines, linesOf_unended hmore hraw]
      rfl
  · exact absurd (List.append_eq_nil_iff.mp (hunread.symm.trans hnil)).1 hraw

/-- One line more is delivered. -/
theorem Delivers.line {text : String} {raw : Bytes} (h : start.Delivers came put items p told taken)
    (hqueued : p'.queued = p.queued)
    (hunread : p.unread = raw ++ p'.unread) (hbegun : p'.begun = []) (hover : p'.Over ↔ p.Over)
    (hcut : CutsLine p.Over p.begun text raw p'.unread) :
    start.Delivers came put (items ++ [.string text]) p' (told ++ [(.bytes, .string text)]) (taken ++ raw) where
  items := by rw [h.items, List.map_append]; rfl
  values := by rw [Side.of_snoc_other (by decide), hqueued, h.values]
  bytes := by rw [List.append_assoc, ← hunread, h.bytes]
  lines := by
    obtain ⟨lines, hlines, hl⟩ := h.lines
    refine ⟨lines ++ [text], ?_, hl.snoc h.fresh h.later hunread hover hcut⟩
    rw [Side.of_snoc_same, hlines, List.map_append]
    rfl
  fresh hnil := absurd (List.append_eq_nil_iff.mp hnil).2 hcut.ne_nil
  later _ := hbegun ▸ List.not_mem_nil

end

namespace Account

variable {start : Port} {came data : Bytes} {put items values : List Value}

/-- Something arrives. -/
theorem fed (h : Account start came put items p m) (hfed : p.Fed data values p') :
    Account start (came ++ data) (put ++ values) items p' m where
  delivers := by
    obtain ⟨told, taken, hd⟩ := h.delivers
    have hunread := hfed.gets.unread_eq
    refine ⟨told, taken, hd.items, ?_, ?_, hd.lines.imp fun _ hl => ⟨hl.1, ?_⟩, fun hnil => hfed.begun_eq ▸ hd.fresh hnil,
      fun hne => hfed.begun_eq ▸ hd.later hne⟩
    · rw [hfed.queued_eq, ← List.append_assoc, hd.values, List.append_assoc]
    · rw [hunread, ← List.append_assoc, hd.bytes, List.append_assoc]
    · refine hl.2.imp_right fun ⟨more, htaken, hlines, hwhole⟩ =>
        ⟨more, htaken, hlines, hwhole.imp_right fun ⟨hnil, hover⟩ => ?_⟩
      obtain ⟨rfl, -, hover'⟩ := hfed.past hover
      exact ⟨by rw [hunread, hnil, List.append_nil], hover'⟩
  coherent := hfed.coherent h.coherent
  values hclosed := by
    obtain ⟨hqueued, hover⟩ := h.values hclosed
    obtain ⟨-, rfl, hover'⟩ := hfed.past hover
    exact ⟨by rw [hfed.queued_eq, hqueued, List.append_nil], hover'⟩
  lines hclosed := by
    obtain ⟨hunread, hover⟩ := h.lines hclosed
    obtain ⟨rfl, -, hover'⟩ := hfed.past hover
    exact ⟨by rw [hfed.gets.unread_eq, hunread, List.append_nil], hover'⟩

/-- A step that delivers nothing. -/
theorem on {result : Step (Option Value)} (h : Account start came put items p m) (hstep : p.ItemStep m result m' p')
    (hstays : p.Stays p') (hdone : result.isDone = false) : Account start came put items p' m' := by
  obtain ⟨told, taken, hd⟩ := h.delivers
  have hsame (hqueued : p'.queued = p.queued) (hunread : p'.unread = p.unread) (hbegun : LooksAt p.begun p'.begun) :
      Account start came put items p' m :=
    ⟨⟨told, taken, hd.idle hqueued hunread hbegun hstays.past⟩, hstays.coherent,
      fun hc => ⟨hqueued ▸ (h.values hc).1, hstays.past.mpr (h.values hc).2⟩,
      fun hc => ⟨hunread ▸ (h.lines hc).1, hstays.past.mpr (h.lines hc).2⟩⟩
  cases hstep with
  | value | line | ended => nomatch hdone
  | more hqueued hunread hbegun | failed hqueued hunread hbegun => exact hsame hqueued hunread hbegun
  | blocked hqueued hunread hbegun => exact hsame hqueued hunread (hbegun ▸ .refl _)
  | valuesEnd hopen hqueued hqueued' hunread hbegun hover =>
    have hs := hsame (hqueued'.trans hqueued.symm) hunread (hbegun ▸ .refl _)
    exact ⟨hs.delivers, hs.coherent, fun _ => ⟨hqueued', hstays.past.mpr hover⟩, hs.lines⟩
  | linesEnd hopen hqueued hunread hunread' hover =>
    have hs := hsame hqueued (hunread'.trans hunread.symm) (begun_of_unread hunread ▸ begun_of_unread hunread' ▸ .refl _)
    exact ⟨hs.delivers, hs.coherent, hs.values, fun _ => ⟨hunread', hstays.past.mpr hover⟩⟩

/-- A step that delivers an item. -/
theorem item {v : Value} (h : Account start came put items p m) (hstep : p.ItemStep m (.done (some v)) m' p')
    (hstays : p.Stays p') : Account start came put (items ++ [v]) p' m' := by
  obtain ⟨told, taken, hd⟩ := h.delivers
  cases hstep with
  | value hqueued hunread hbegun =>
    refine ⟨⟨_, _, hd.value hqueued hunread hbegun hstays.past⟩, hstays.coherent, fun hc => ?_, fun hc => ?_⟩
    · rw [(h.values hc).1] at hqueued
      nomatch hqueued
    · exact ⟨hunread ▸ (h.lines hc).1, hstays.past.mpr (h.lines hc).2⟩
  | line hqueued hunread hbegun hcut =>
    refine ⟨⟨_, _, hd.line hqueued hunread hbegun hstays.past hcut⟩, hstays.coherent, fun hc => ?_, fun hc => ?_⟩
    · exact ⟨hqueued ▸ (h.values hc).1, hstays.past.mpr (h.values hc).2⟩
    · rw [(h.lines hc).1] at hunread
      exact ⟨(List.append_eq_nil_iff.mp hunread.symm).2, hstays.past.mpr (h.lines hc).2⟩

end Account

/-- What was consumed is accounted for, side by side. -/
theorem Consumed.account {start : Port} {came : Bytes} {put items : List Value} (h : Consumed start came put items p m)
    (hstart : start.Coherent) : Account start came put items p m := by
  induction h with
  | start =>
    refine ⟨⟨[], [], rfl, (List.append_nil _).symm, (List.append_nil _).symm, ⟨[], rfl, .inl ⟨rfl, rfl⟩⟩,
      fun _ => .refl _, fun h => ?_⟩, hstart, nofun, nofun⟩
    exact absurd rfl h
  | fed _ hfed ih => exact ih.fed hfed
  | on prefer who _ hstep hdone ih =>
    obtain ⟨hitem, hstays⟩ := item_eq ih.coherent hstep
    exact ih.on hitem hstays hdone
  | item prefer who _ hstep ih =>
    obtain ⟨hitem, hstays⟩ := item_eq ih.coherent hstep
    exact ih.item hitem hstays

/-! ## Main result -/

/-- Whatever a consumer of both streams prefers at each step, and whatever arrives meanwhile. -/
theorem merged {start : Port} {came : Bytes} {put items : List Value} (hstart : start.Coherent)
    (h : Consumed start came put items p m) : Merged start came put items p m := by
  have haccount := h.account hstart
  refine ⟨haccount.delivers, ?_, ?_, ?_, haccount.coherent, fun who => p.toEnd_completes who⟩
  · intro prefer who m' p' hitem
    cases (item_eq haccount.coherent hitem).1 with
    | ended hclosed =>
      obtain ⟨hv, hl⟩ | hclosed := hclosed
      · exact ⟨(haccount.values hv).1, haccount.lines hl⟩
      · exact hclosed
  · intro prefer who m' p' hitem
    cases (item_eq haccount.coherent hitem).1 with
    | blocked hqueued hunread hbegun hvalues hlines hopen =>
      refine ⟨?_, ?_, hopen.elim (fun hv => (hvalues hv).2) fun hl => (hlines hl).2⟩
      · cases hv : m.valuesOpen with
        | true => exact (hvalues hv).1
        | false => exact (haccount.values hv).1
      · cases hl : m.linesOpen with
        | true => exact (hlines hl).1
        | false => exact (haccount.lines hl).1.trans (begun_of_unread (haccount.lines hl).1).symm
  · intro prefer who m' p' hitem
    unfold Merging.streams
    cases (item_eq haccount.coherent hitem).1 with
    | valuesEnd hopen _ _ _ _ _ hwork =>
      rw [hopen]
      exact Nat.add_lt_add_of_le_of_lt hwork (Nat.add_lt_add_right Nat.one_pos _)
    | linesEnd hopen _ _ _ _ hwork =>
      rw [hopen]
      exact Nat.add_lt_add_of_le_of_lt hwork (Nat.add_lt_add_left Nat.one_pos _)
    | more _ _ _ hwork => exact Nat.add_lt_add_right hwork _

/-- A line is taken first, then a value, and then the consumer stops: the other line is left. -/
theorem merged_stopped : ∃ p m, (Port.channel (.closedWith [120, 10, 121, 10] [.string "v"])).Coherent ∧
    Consumed (.channel (.closedWith [120, 10, 121, 10] [.string "v"])) [] [] [.string "x", .string "v"] p m ∧
    p.unread = [121, 10] ∧
    p.queued = [] ∧ Merged (.channel (.closedWith [120, 10, 121, 10] [.string "v"])) [] [] [.string "x",
      .string "v"] p m := by
  have hstart := coherent_closedWith [120, 10, 121, 10] [.string "v"]
  have hnone : Consumed (.channel (.closedWith [120, 10, 121, 10] [.string "v"])) [] [] [] _ _ := .start
  have hfetched := hnone.on .bytes 0 rfl rfl
  have hconsumed := (hfetched.item .bytes 0 (v := .string "x") rfl).item .values 0 (v := .string "v") rfl
  exact ⟨_, _, hstart, hconsumed, rfl, rfl, merged hstart hconsumed⟩

end Port

/-! ## Requests for items -/

/-- A step at an inlet is a step of a consumer of its port that prefers values. -/
theorem World.item_port {w : World} {inlet : Inlet} {p : Port} (who : TaskId) (m : Merging) (h : w.port? inlet = some p) :
    (w.item who inlet m).1 = (p.item .values who m).1 ∧ (w.item who inlet m).2.1 = (p.item .values who m).2.1 ∧
      (w.item who inlet m).2.2.port? inlet = some (p.item .values who m).2.2 := by
  cases inlet with
  | channel c =>
    obtain ⟨channel, hc, rfl⟩ := Option.map_eq_some_iff.1 h
    obtain ⟨hlt, rfl⟩ := Array.getElem?_eq_some_iff.1 hc
    simp [item, port?, Port.item, hlt]
  | file f =>
    have hline := reading_port (·.line who) (fun files => readingFile (LineReader.line (fetchFile files))) h
    obtain ⟨handle, hf, rfl⟩ := Option.map_eq_some_iff.1 h
    exact ⟨congrArg (Step.map _) hline.1, rfl, hline.2⟩

/-- A request for an item is answered by a step of a consumer, unless that has to wait. -/
theorem World.perform_item {w : World} {inlet : Inlet} {p : Port} (who : TaskId) (m : Merging) (h : w.port? inlet = some p) :
    (w.perform who (.item inlet m)).1 =
        (if (p.item .values who m).1.isBlocked then none else some ((p.item .values who m).1, (p.item .values who m).2.1)) ∧
      (w.perform who (.item inlet m)).2.port? inlet = some (p.item .values who m).2.2 := by
  obtain ⟨hresult, hm, hport⟩ := item_port who m h
  rcases hitem : w.item who inlet m with ⟨_ | _ | _ | _, m', w'⟩ <;> rw [hitem] at hresult hm hport <;>
    simp only [perform, hitem, ← hresult, ← hm] <;> exact ⟨rfl, hport⟩

/-- The requests that a consumer makes for one item: each step says how the next one goes on, and the last one delivers. -/
inductive Inlet.Asks (inlet : Inlet) : Merging → List Exchange → Option Value → Merging → Prop
  | done {m m' : Merging} {v : Option Value} : Asks inlet m [⟨.item inlet m, (.done v, m')⟩] v m'
  | on {m m₁ m' : Merging} {es : List Exchange} {v : Option Value} {result : Step (Option Value)}
      (hdone : result.isDone = false)
      (h : Asks inlet m₁ es v m') : Asks inlet m (⟨.item inlet m, (result, m₁)⟩ :: es) v m'

open Eval in
/-- A request for an item asks as often as there is nothing, and ends with the item. -/
theorem Inlet.nextItem_ends {inlet : Inlet} {bound : Nat} {m m' : Merging} {es : List Exchange} {v : Option Value}
    (h : (inlet.nextItem bound m).Ends es (.ok (v, m'))) : inlet.Asks m es v m' := by
  induction bound generalizing m es with
  | zero => exact absurd h not_ends_exhausted
  | succ bound ih =>
    obtain ⟨⟨result, m₁⟩, rest, rfl, hrest⟩ := ends_ask_bind.1 h
    cases result with
    | done v =>
      obtain ⟨rfl, heq⟩ := ends_pure.1 hrest
      cases heq
      exact .done
    | failed cause => cases (ends_fail.1 hrest).2
    | blocked | more => exact .on rfl (ih hrest)

end DualShell
