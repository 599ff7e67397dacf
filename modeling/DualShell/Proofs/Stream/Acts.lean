import DualShell.Machine.Perform
import DualShell.Proofs.Stream.Merged

/-!
# What requests do to a channel

A request is about one channel at most (`World.acts`): it leaves all others as they are. So what a channel goes through
is a matter of the requests about it. A channel that nothing came through and whose producer is gone is at its end for
good (`Channel.Blank`), and a channel whose consumer is gone refuses all that is written to it (`Channel.Deserted`).
-/

namespace DualShell

/-- A step of a read as an answer: none if it has to wait. -/
def Step.told {α : Type} : Step α → Option (Step α)
  | .blocked => none
  | s => some s

/-- What became of a write as an answer. -/
def WritePoll.told : WritePoll → Option (Except Cause Nat)
  | .accepted n => some (.ok n)
  | .broken => some (.error .readerGone)
  | .pending => none

/-- What became of a value put as an answer. -/
def PutPoll.told : PutPoll → Option (Except Cause Unit)
  | .accepted => some (.ok ())
  | .broken => some (.error .readerGone)
  | .pending => none

namespace Request

variable (c : ChannelId)

/-- The request reads at the channel. -/
def Reads : Request → Prop
  | .line i | .toEnd i | .upTo i _ | .item i _ => i = .channel c
  | _ => False

/-- The request brings something to the channel. -/
def Writes : Request → Prop
  | .write o data => o = .channel c ∧ data ≠ []
  | .put o _ => o = .channel c
  | _ => False

/-- The request has to do with the channel. -/
def Concerns : Request → Prop
  | .line i | .toEnd i | .upTo i _ | .item i _ | .closeInlet i => i = .channel c
  | .write o _ | .put o _ | .closeOutlet o => o = .channel c
  | _ => False

/-- A read finds that what it reads has ended. -/
def FindsEnd : (r : Request) → r.Response → Prop
  | .line _, x => x = .done none
  | .toEnd _, x => x = .done []
  | .upTo .., x => x = .done []
  | .item _ m, x => x.1 = .done none ∨ (x.1 = .more ∧ x.2.streams < m.streams)
  | _, _ => False

/-- What is brought finds that nobody is there to read it. -/
def FindsGone : (r : Request) → r.Response → Prop
  | .write .., x => x = .error .readerGone
  | .put .., x => x = .error .readerGone
  | _, _ => False

end Request

/-- What the answer to a request of a task makes of a channel. -/
inductive Channel.Acts (c : ChannelId) (who : TaskId) (ch : Channel) : (r : Request) → Option r.Response → Channel → Prop
  /-- It has nothing to do with it. -/
  | apart {r : Request} (x : Option r.Response) (h : ¬r.Concerns c) : Acts c who ch r x ch
  | line : Acts c who ch (.line (.channel c)) (ch.line who).1.told (ch.line who).2
  | toEnd : Acts c who ch (.toEnd (.channel c)) (ch.toEnd who).1.told (ch.toEnd who).2
  | upTo (count : Nat) : Acts c who ch (.upTo (.channel c) count) (ch.upTo who count).1.told (ch.upTo who count).2
  | item (m : Merging) : Acts c who ch (.item (.channel c) m)
      ((ch.item .values who m).1.told.map fun s => (s, (ch.item .values who m).2.1)) (ch.item .values who m).2.2
  | closeInlet : Acts c who ch (.closeInlet (.channel c)) (some ()) ch.dropInlet
  | closeOutlet : Acts c who ch (.closeOutlet (.channel c)) (some ()) ch.dropOutlet
  | write (data : Bytes) : Acts c who ch (.write (.channel c) data) (ch.write who data).1.told (ch.write who data).2
  | put (v : Value) : Acts c who ch (.put (.channel c) v) (ch.put v).1.told (ch.put v).2

namespace World

variable {c : ChannelId} {ch : Channel} {w : World} {who : TaskId}

/-- An answer is what the step tells. -/
theorem answerStep_fst {α : Type} (s : Step α) (w : World) : (answerStep (s, w)).1 = s.told := by cases s <;> rfl

theorem answerStep_snd {α : Type} (s : Step α) (w : World) : (answerStep (s, w)).2 = w := by cases s <;> rfl

/-- What a read at a channel makes of it, and of the others. -/
theorem reading_channel {α : Type} (hch : w.channels[c]? = some ch) (i : Inlet) (onChannel : Channel → Step α × Channel)
    (onFile : OpenFile → Step α × OpenFile) :
    (i ≠ .channel c ∧ (w.reading i onChannel onFile).2.channels[c]? = some ch) ∨
      (i = .channel c ∧ (w.reading i onChannel onFile).1 = (onChannel ch).1 ∧
        (w.reading i onChannel onFile).2.channels[c]? = some (onChannel ch).2) := by
  unfold reading
  cases i with
  | channel i =>
    by_cases hi : i = c
    · subst hi
      refine .inr ⟨rfl, ?_⟩
      dsimp only
      rw [hch]
      exact ⟨rfl, by rw [Array.getElem?_setIfInBounds_self_of_lt (Array.getElem?_eq_some_iff.1 hch).1]⟩
    · refine .inl ⟨fun h => hi (Inlet.channel.inj h), ?_⟩
      dsimp only
      split
      · exact hch
      · rw [Array.getElem?_setIfInBounds_ne hi]
        exact hch
  | file i =>
    refine .inl ⟨nofun, ?_⟩
    dsimp only
    split <;> exact hch

/-- An item that is asked for is told as the step tells it. -/
theorem perform_item_fst (who : TaskId) (i : Inlet) (m : Merging) :
    (w.perform who (.item i m)).1 = (w.item who i m).1.told.map fun s => (s, (w.item who i m).2.1) := by
  rw [perform]
  rcases w.item who i m with ⟨s, m', w'⟩
  cases s <;> rfl

theorem perform_item_snd (who : TaskId) (i : Inlet) (m : Merging) :
    (w.perform who (.item i m)).2 = (w.item who i m).2.2 := by
  rw [perform]
  rcases w.item who i m with ⟨s, m', w'⟩
  cases s <;> rfl

/-- What a step towards the next item of both streams makes of a channel. -/
theorem item_channel (hch : w.channels[c]? = some ch) (who : TaskId) (i : Inlet) (m : Merging) :
    (i ≠ .channel c ∧ (w.item who i m).2.2.channels[c]? = some ch) ∨
      (i = .channel c ∧
        ((w.item who i m).1.told.map fun s => (s, (w.item who i m).2.1)) =
          (ch.item .values who m).1.told.map (fun s => (s, (ch.item .values who m).2.1)) ∧
        (w.item who i m).2.2.channels[c]? = some (ch.item .values who m).2.2) := by
  unfold item
  cases i with
  | channel i =>
    by_cases hi : i = c
    · subst hi
      refine .inr ⟨rfl, ?_⟩
      dsimp only
      rw [hch]
      exact ⟨rfl, by rw [Array.getElem?_setIfInBounds_self_of_lt (Array.getElem?_eq_some_iff.1 hch).1]⟩
    · refine .inl ⟨fun h => hi (Inlet.channel.inj h), ?_⟩
      dsimp only
      split
      · exact hch
      · rw [Array.getElem?_setIfInBounds_ne hi]
        exact hch
  | file i =>
    obtain ⟨-, hsame⟩ | ⟨hi, -⟩ :=
      reading_channel hch (.file i) (·.line who) (readingFile (LineReader.line (fetchFile w.files)))
    · exact .inl ⟨nofun, hsame⟩
    · nomatch hi

/-- What dropping a consumer's end makes of a channel. -/
theorem closeInlet_channel (hch : w.channels[c]? = some ch) (i : Inlet) :
    (i ≠ .channel c ∧ (w.closeInlet i).channels[c]? = some ch) ∨
      (i = .channel c ∧ (w.closeInlet i).channels[c]? = some ch.dropInlet) := by
  cases i with
  | channel i =>
    by_cases hi : i = c
    · exact .inr ⟨congrArg _ hi, by simp only [closeInlet, Array.getElem?_modify, if_pos hi, hch, Option.map_some]⟩
    · exact .inl ⟨fun h => hi (Inlet.channel.inj h), by simp only [closeInlet, Array.getElem?_modify, if_neg hi, hch]⟩
  | file i => exact .inl ⟨nofun, hch⟩

/-- What dropping a share of a producer's end makes of a channel. -/
theorem closeOutlet_channel (hch : w.channels[c]? = some ch) (o : Outlet) :
    (o ≠ .channel c ∧ (w.closeOutlet o).channels[c]? = some ch) ∨
      (o = .channel c ∧ (w.closeOutlet o).channels[c]? = some ch.dropOutlet) := by
  cases o with
  | channel i =>
    by_cases hi : i = c
    · exact .inr ⟨congrArg _ hi, by simp only [closeOutlet, Array.getElem?_modify, if_pos hi, hch, Option.map_some]⟩
    · exact .inl ⟨fun h => hi (Outlet.channel.inj h), by simp only [closeOutlet, Array.getElem?_modify, if_neg hi, hch]⟩
  | file i | collector i => exact .inl ⟨nofun, hch⟩

/-- What a write makes of a channel. -/
theorem write_channel (hch : w.channels[c]? = some ch) (who : TaskId) (o : Outlet) (data : Bytes) :
    (o ≠ .channel c ∧ (w.write who o data).2.channels[c]? = some ch) ∨
      (o = .channel c ∧ (w.write who o data).1 = (ch.write who data).1.told ∧
        (w.write who o data).2.channels[c]? = some (ch.write who data).2) := by
  unfold write
  cases o with
  | channel i =>
    by_cases hi : i = c
    · subst hi
      refine .inr ⟨rfl, ?_⟩
      simp only [hch]
      have hset := fun ch' => Array.getElem?_setIfInBounds_self_of_lt (a := ch') (Array.getElem?_eq_some_iff.1 hch).1
      rcases ch.write who data with ⟨result, ch'⟩
      cases result <;> exact ⟨rfl, hset ch'⟩
    · refine .inl ⟨fun h => hi (Outlet.channel.inj h), ?_⟩
      dsimp only
      split
      · exact hch
      · split <;> exact (Array.getElem?_setIfInBounds_ne hi).trans hch
  | file i =>
    refine .inl ⟨nofun, ?_⟩
    dsimp only
    split <;> exact hch
  | collector i => exact .inl ⟨nofun, hch⟩

/-- What a value put makes of a channel. -/
theorem put_channel (hch : w.channels[c]? = some ch) (o : Outlet) (v : Value) :
    (o ≠ .channel c ∧ (w.put o v).2.channels[c]? = some ch) ∨
      (o = .channel c ∧ (w.put o v).1 = (ch.put v).1.told ∧ (w.put o v).2.channels[c]? = some (ch.put v).2) := by
  unfold put
  cases o with
  | channel i =>
    by_cases hi : i = c
    · subst hi
      refine .inr ⟨rfl, ?_⟩
      simp only [hch]
      have hset := fun ch' => Array.getElem?_setIfInBounds_self_of_lt (a := ch') (Array.getElem?_eq_some_iff.1 hch).1
      rcases ch.put v with ⟨result, ch'⟩
      cases result <;> exact ⟨rfl, hset ch'⟩
    · refine .inl ⟨fun h => hi (Outlet.channel.inj h), ?_⟩
      dsimp only
      split
      · exact hch
      · split <;> exact (Array.getElem?_setIfInBounds_ne hi).trans hch
  | file i | collector i => exact .inl ⟨nofun, hch⟩

/-- A request does to a channel what it says, or leaves it alone. -/
theorem acts (hch : w.channels[c]? = some ch) (who : TaskId) (r : Request) :
    ∃ ch', (w.perform who r).2.channels[c]? = some ch' ∧ ch.Acts c who r (w.perform who r).1 ch' := by
  have hlt : c < w.channels.size := (Array.getElem?_eq_some_iff.1 hch).1
  cases r with
  | line i =>
    have hread := reading_channel hch i (·.line who) (readingFile (LineReader.line (fetchFile w.files)))
    rw [perform, World.line]
    rw [answerStep_fst, answerStep_snd]
    obtain ⟨hi, hsame⟩ | ⟨rfl, hstep, hch'⟩ := hread
    · exact ⟨ch, hsame, .apart _ hi⟩
    · exact ⟨_, hch', hstep ▸ .line⟩
  | toEnd i =>
    have hread := reading_channel hch i (·.toEnd who) (readingFile (LineReader.toEnd (fetchFile w.files)))
    rw [perform, World.toEnd]
    rw [answerStep_fst, answerStep_snd]
    obtain ⟨hi, hsame⟩ | ⟨rfl, hstep, hch'⟩ := hread
    · exact ⟨ch, hsame, .apart _ hi⟩
    · exact ⟨_, hch', hstep ▸ .toEnd⟩
  | upTo i count =>
    have hread := reading_channel hch i (·.upTo who count) (readingFile (LineReader.upTo (fetchFile w.files) count))
    rw [perform, World.upTo]
    rw [answerStep_fst, answerStep_snd]
    obtain ⟨hi, hsame⟩ | ⟨rfl, hstep, hch'⟩ := hread
    · exact ⟨ch, hsame, .apart _ hi⟩
    · exact ⟨_, hch', hstep ▸ .upTo count⟩
  | item i m =>
    rw [perform_item_fst, perform_item_snd]
    obtain ⟨hi, hsame⟩ | ⟨rfl, hitem, hch'⟩ := item_channel hch who i m
    · exact ⟨ch, hsame, .apart _ hi⟩
    · exact ⟨_, hch', hitem ▸ .item m⟩
  | closeInlet i =>
    obtain ⟨hi, hsame⟩ | ⟨rfl, hch'⟩ := closeInlet_channel hch i
    · exact ⟨ch, hsame, .apart _ hi⟩
    · exact ⟨_, hch', .closeInlet⟩
  | closeOutlet o =>
    obtain ⟨ho, hsame⟩ | ⟨rfl, hch'⟩ := closeOutlet_channel hch o
    · exact ⟨ch, hsame, .apart _ ho⟩
    · exact ⟨_, hch', .closeOutlet⟩
  | write o data =>
    obtain ⟨ho, hsame⟩ | ⟨rfl, htold, hch'⟩ := write_channel hch who o data
    · exact ⟨ch, hsame, .apart _ ho⟩
    · exact ⟨_, hch', htold ▸ .write data⟩
  | put o v =>
    obtain ⟨ho, hsame⟩ | ⟨rfl, htold, hch'⟩ := put_channel hch o v
    · exact ⟨ch, hsame, .apart _ ho⟩
    · exact ⟨_, hch', htold ▸ .put v⟩
  | openChannel k | openInput data values =>
    exact ⟨ch, (Array.getElem?_push_lt hlt).trans (hch ▸ (Array.getElem?_eq_getElem hlt).symm), .apart _ id⟩
  | openFile path mode =>
    refine ⟨ch, ?_, .apart _ id⟩
    simp only [perform]
    unfold World.openFile
    split <;> split <;> exact hch
  | edit cell change =>
    refine ⟨ch, ?_, .apart _ id⟩
    unfold perform
    split
    exact hch
  | join id =>
    refine ⟨ch, ?_, .apart _ fun h => h⟩
    simp only [perform]
    split
    · exact hch
    · rename_i htake
      unfold takeEnded at htake
      split at htake <;> cases htake
      exact hch
  | waitJob k id => exact ⟨ch, hch, .apart _ fun h => h⟩
  | claimModule key place =>
    refine ⟨ch, ?_, .apart _ id⟩
    simp only [perform]
    split <;> exact hch
  | takeCollected k =>
    refine ⟨ch, ?_, .apart _ id⟩
    simp only [perform, World.takeCollected]
    split <;> exact hch
  | _ => exact ⟨ch, hch, .apart _ id⟩

end World

/-! ## Channels that nothing comes through -/

namespace LineReader

variable {σ : Type} (fetch : Nat → σ → Fetch × σ)

/-- A step of a reader leaves its supply as it is, or fetches from it. -/
theorem toEnd_supply (r : LineReader) (s : σ) :
    (toEnd fetch r s).2.2 = s ∨ ∃ count, (toEnd fetch r s).2.2 = (fetch count s).2 := by
  unfold toEnd
  split
  · refine .inr ⟨fetchSize, ?_⟩
    rcases fetch fetchSize s with ⟨_ | data | cause, s'⟩
    · rfl
    · dsimp only
      split <;> rfl
    · rfl
  · exact .inl rfl

/-- A read up to some bytes fetches once or not at all. -/
theorem upTo_supply (count : Nat) (r : LineReader) (s : σ) :
    (upTo fetch count r s).2.2 = s ∨ ∃ n, (upTo fetch count r s).2.2 = (fetch n s).2 := by
  unfold upTo
  split
  · exact .inl rfl
  split
  · exact .inl rfl
  · refine .inr ⟨max count fetchSize, ?_⟩
    rcases fetch (max count fetchSize) s with ⟨_ | data | cause, s'⟩ <;> rfl

end LineReader

namespace Channel

/-- Nothing came through a channel, and so many shares of its producer's end are left. -/
structure Blank (shares : Nat) (ch : Channel) : Prop where
  coming : ch.pipe.coming = []
  queued : ch.values.items.toList = []
  reader : ch.reader = .empty
  outlets : ch.outlets = shares
  writers : ch.pipe.writers = shares
  senders : ch.values.senders = shares

/-- The consumer's end of a channel is gone. -/
structure Deserted (ch : Channel) : Prop where
  bytes : ch.pipe.readerAlive = false
  values : ch.values.receiverAlive = false

variable {c : ChannelId} {ch ch' : Channel} {who : TaskId} {shares : Nat} {r : Request} {x : Option r.Response}

/-- Nothing came through a new channel, and it has one share. -/
theorem blank_create (bytes values : Nat) : (create bytes values).Blank 1 := ⟨rfl, rfl, rfl, rfl, rfl, rfl⟩

namespace Blank

/-- Whoever reads bytes finds the end, or has to wait for it. -/
theorem fetch (h : ch.Blank shares) (who : TaskId) {count : Nat} (hcount : 0 < count) :
    (shares = 0 ∧ BytePipe.fetch who count ch.pipe = (.bytes [], ch.pipe)) ∨
      (shares ≠ 0 ∧ BytePipe.fetch who count ch.pipe = (.pending, { ch.pipe with parkedReader := some who })) := by
  rcases ch.pipe.fetch_cases who hcount with ⟨hwriters, hfetch⟩ | ⟨-, hwriters, hfetch⟩ | ⟨data, buffer, hdata, hfetch⟩
  · exact .inl ⟨h.writers ▸ hwriters, hfetch⟩
  · exact .inr ⟨h.writers ▸ hwriters, hfetch⟩
  · have hfront := ((BytePipe.supplies who).bytes hcount hfetch).1
    rw [h.coming] at hfront
    exact absurd (List.append_eq_nil_iff.1 hfront.symm).1 hdata

/-- A read that yields `a` at the end yields it, or has to wait. -/
def Finds {α : Type} (shares : Nat) (ch : Channel) (a : α) (result : Step α × Channel) : Prop :=
  (shares = 0 ∧ result = (.done a, ch)) ∨ (shares ≠ 0 ∧ result.1 = .blocked ∧ result.2.Blank shares)

/-- A read of a channel that nothing came through waits, or finds the end once no shares are left. -/
theorem reading {α : Type} {step : LineReader → BytePipe → Step α × LineReader × BytePipe} {a : α} {count : Nat}
    (h : ch.Blank shares) (who : TaskId) (hcount : 0 < count)
    (hend : ∀ {p'}, BytePipe.fetch who count ch.pipe = (.bytes [], p') → step .empty ch.pipe = (.done a, .empty, p'))
    (hwait : ∀ {p'}, BytePipe.fetch who count ch.pipe = (.pending, p') → step .empty ch.pipe = (.blocked, .empty, p')) :
    Finds shares ch a (ch.reading step) := by
  unfold Channel.reading
  rw [h.reader]
  obtain ⟨hshares, hfetch⟩ | ⟨hshares, hfetch⟩ := h.fetch who hcount
  · rw [hend hfetch]
    exact .inl ⟨hshares, by dsimp only; rw [← h.reader]⟩
  · rw [hwait hfetch]
    exact .inr ⟨hshares, rfl, ⟨h.coming, h.queued, rfl, h.outlets, h.writers, h.senders⟩⟩

/-- So does a request for a line. -/
theorem line (h : ch.Blank shares) (who : TaskId) : Finds shares ch none (ch.line who) :=
  h.reading who (show 0 < fetchSize by decide) (fun hfetch => by simp [LineReader.line, LineReader.empty, hfetch])
    fun hfetch => by
    simp [LineReader.line, LineReader.empty, hfetch]

/-- So does a read to the end. -/
theorem toEnd (h : ch.Blank shares) (who : TaskId) : Finds shares ch [] (ch.toEnd who) :=
  h.reading who (show 0 < fetchSize by decide) (fun hfetch => by simp [LineReader.toEnd, LineReader.empty, hfetch])
    fun hfetch => by
    simp [LineReader.toEnd, LineReader.empty, hfetch]

/-- So does a read up to some bytes. -/
theorem upTo (h : ch.Blank shares) (who : TaskId) (count : Nat) : Finds shares ch [] (ch.upTo who count) :=
  h.reading who (Nat.lt_of_lt_of_le (show 0 < fetchSize by decide) (Nat.le_max_right count _))
    (fun hfetch => by simp [LineReader.upTo, LineReader.empty, hfetch]) fun hfetch => by
      simp [LineReader.upTo, LineReader.empty, hfetch]

/-- What is told of such a read. -/
theorem Finds.told {α : Type} {a : α} {result : Step α × Channel} (hfinds : Finds shares ch a result) (h : ch.Blank shares) :
    result.2.Blank shares ∧ (∀ s, result.1.told = some s → s = .done a) ∧ (shares = 0 → result.1.told ≠ none) := by
  obtain ⟨-, rfl⟩ | ⟨hne, hblocked, hblank⟩ := hfinds
  · exact ⟨h, fun s hs => (Option.some.inj hs).symm, fun _ => nofun⟩
  · rw [hblocked]
    exact ⟨hblank, nofun, fun hzero => absurd hzero hne⟩

/-- Whoever reads both streams finds one after the other at its end, or has to wait for that. -/
theorem item (h : ch.Blank shares) (who : TaskId) (m : Merging) :
    (shares ≠ 0 ∧ (ch.item .values who m).1 = .blocked ∧ (ch.item .values who m).2.2.Blank shares) ∨
      ((ch.item .values who m).2.2 = ch ∧ ((ch.item .values who m).1 = .done none ∨
        ((ch.item .values who m).1 = .more ∧ (ch.item .values who m).2.1.streams < m.streams))) := by
  obtain ⟨valuesOpen, linesOpen⟩ := m
  have hrecv : ch.recv = (if shares = 0 then .ended else .pending, ch) := by
    unfold recv
    rcases ch.values.recv_cases with ⟨-, hsenders, hrecv⟩ | ⟨-, hsenders, hrecv⟩ | ⟨v, items, hitems, -⟩
    · rw [hrecv, if_pos (h.senders ▸ hsenders)]
    · rw [hrecv, if_neg (h.senders ▸ hsenders)]
    · rw [h.queued] at hitems
      nomatch hitems
  obtain ⟨hshares, hline⟩ | ⟨hshares, hline, hblank⟩ := h.line who
  · refine .inr ?_
    cases valuesOpen <;> cases linesOpen <;> simp [Channel.item, valueItem, lineItem, hrecv, hshares, hline, Merging.streams]
  · rcases hstep : ch.line who with ⟨s, ch'⟩
    rw [hstep] at hline hblank
    obtain rfl : s = .blocked := hline
    cases valuesOpen <;> cases linesOpen <;> simp [Channel.item, valueItem, lineItem, hrecv, hshares, hstep, h, hblank]

/-- Nothing came through a channel whose consumer's end was dropped. -/
theorem dropInlet (h : ch.Blank shares) : ch.dropInlet.Blank shares := ⟨rfl, rfl, rfl, h.outlets, h.writers, h.senders⟩

/-- The one share that is left is dropped. -/
theorem dropOutlet (h : ch.Blank shares) (hshares : shares ≤ 1) : ch.dropOutlet.Blank 0 := by
  obtain ⟨hcoming, hqueued, hreader, houtlets, hwriters, hsenders⟩ := h
  have hvalues : ch.values.senders - 1 = 0 := by omega
  unfold Channel.dropOutlet
  split
  · exact ⟨hcoming, hqueued, hreader, by dsimp only; omega, show ch.pipe.writers - 1 = 0 by omega, hvalues⟩
  · rename_i hnot
    have hnone : ch.outlets ≠ 1 := by simpa using hnot
    exact ⟨hcoming, hqueued, hreader, by dsimp only; omega, by dsimp only; omega, hvalues⟩

end Blank

/-- Unless something is brought to a channel that nothing came through, nothing comes through it: reads that are
answered find its end, and they are answered once its last share is dropped. -/
theorem Acts.blank (hacts : ch.Acts c who r x ch') (h : ch.Blank shares) (hshares : shares ≤ 1) (hspares : ¬r.Writes c) :
    (∃ left ≤ shares, ch'.Blank left ∧ (r = .closeOutlet (.channel c) → left = 0)) ∧
      (r.Reads c → (∀ y, x = some y → r.FindsEnd y) ∧ (shares = 0 → x ≠ none)) := by
  cases hacts with
  | apart x hr =>
    refine ⟨⟨shares, Nat.le_refl _, h, ?_⟩, fun hreads => absurd ?_ hr⟩
    · rintro rfl
      exact absurd rfl hr
    · cases r <;> first | exact hreads | exact hreads.elim
  | line =>
    obtain ⟨hblank, htold⟩ := (h.line who).told h
    exact ⟨⟨shares, Nat.le_refl _, hblank, nofun⟩, fun _ => htold⟩
  | toEnd =>
    obtain ⟨hblank, htold⟩ := (h.toEnd who).told h
    exact ⟨⟨shares, Nat.le_refl _, hblank, nofun⟩, fun _ => htold⟩
  | upTo count =>
    obtain ⟨hblank, htold⟩ := (h.upTo who count).told h
    exact ⟨⟨shares, Nat.le_refl _, hblank, nofun⟩, fun _ => htold⟩
  | item m =>
    obtain ⟨hne, hitem, hblank⟩ | ⟨hsame, hend⟩ := h.item who m
    · rw [hitem]
      exact ⟨⟨shares, Nat.le_refl _, hblank, nofun⟩, fun _ => ⟨nofun, fun hzero => absurd hzero hne⟩⟩
    · refine ⟨⟨shares, Nat.le_refl _, hsame.symm ▸ h, nofun⟩, fun _ => ?_⟩
      obtain hdone | ⟨hmore, hfewer⟩ := hend
      · rw [hdone]
        exact ⟨fun y hy => by cases hy; exact .inl rfl, fun _ => nofun⟩
      · rw [hmore]
        exact ⟨fun y hy => by cases hy; exact .inr ⟨rfl, hfewer⟩, fun _ => nofun⟩
  | closeInlet => exact ⟨⟨shares, Nat.le_refl _, h.dropInlet, nofun⟩, False.elim⟩
  | closeOutlet => exact ⟨⟨0, Nat.zero_le _, h.dropOutlet hshares, fun _ => rfl⟩, False.elim⟩
  | write data =>
    have hdata : data = [] := by_contra fun hne => hspares ⟨rfl, hne⟩
    subst hdata
    exact ⟨⟨shares, Nat.le_refl _, h, nofun⟩, False.elim⟩
  | put v => exact absurd rfl hspares

/-! ## Channels that nobody reads any more -/

/-- To fetch bytes keeps the reader. -/
theorem fetch_readerAlive (p : BytePipe) (who : Waker) (count : Nat) :
    (BytePipe.fetch who count p).2.readerAlive = p.readerAlive := by
  unfold BytePipe.fetch BytePipe.read
  split <;> rename_i hread <;> split at hread
  · split at hread <;> cases hread
    rfl
  · nomatch hread
  · split at hread <;> cases hread
    rfl
  · cases hread
    rfl

namespace Deserted

/-- No read brings the consumer back. -/
theorem reading {α : Type} {step : LineReader → BytePipe → Step α × LineReader × BytePipe} (h : ch.Deserted)
    (hstep : (step ch.reader ch.pipe).2.2 = ch.pipe ∨ ∃ count, (step ch.reader ch.pipe).2.2 =
      (BytePipe.fetch who count ch.pipe).2) :
    (ch.reading step).2.Deserted := by
  refine ⟨?_, h.values⟩
  show (step ch.reader ch.pipe).2.2.readerAlive = false
  obtain hsame | ⟨count, hfetch⟩ := hstep
  · rw [hsame, h.bytes]
  · rw [hfetch, fetch_readerAlive, h.bytes]

theorem line (h : ch.Deserted) (who : TaskId) : (ch.line who).2.Deserted :=
  h.reading ((LineReader.line_supply (BytePipe.fetch who) ch.reader ch.pipe).imp_right fun hfetch => ⟨fetchSize, hfetch⟩)

theorem toEnd (h : ch.Deserted) (who : TaskId) : (ch.toEnd who).2.Deserted :=
  h.reading (LineReader.toEnd_supply (BytePipe.fetch who) ch.reader ch.pipe)

theorem upTo (h : ch.Deserted) (who : TaskId) (count : Nat) : (ch.upTo who count).2.Deserted :=
  h.reading (LineReader.upTo_supply (BytePipe.fetch who) count ch.reader ch.pipe)

theorem recv (h : ch.Deserted) : ch.recv.2.Deserted := by
  unfold Channel.recv
  rcases ch.values.recv_cases with ⟨-, -, hrecv⟩ | ⟨-, -, hrecv⟩ | ⟨v, items, -, hrecv⟩ <;> rw [hrecv] <;>
    exact ⟨h.bytes, h.values⟩

theorem lineItem (h : ch.Deserted) (who : TaskId) (m : Merging) : (ch.lineItem who m).2.2.Deserted := by
  have hline := h.line who
  unfold Channel.lineItem
  rcases hs : ch.line who with ⟨s, ch'⟩
  rw [hs] at hline
  split
  · rcases s with _ | _ | (_ | _) | _ <;> exact hline
  · exact h

theorem item (h : ch.Deserted) (who : TaskId) (m : Merging) : (ch.item .values who m).2.2.Deserted := by
  have hrecv := h.recv
  unfold Channel.item valueItem
  rcases hs : ch.recv with ⟨s, ch'⟩
  rw [hs] at hrecv
  split
  · exact h
  · dsimp only
    split
    · rename_i hblocked
      split at hblocked
      · cases s <;> cases hblocked
        exact lineItem hrecv who _
      · cases hblocked
        exact h.lineItem who _
    · split
      · cases s <;> exact hrecv
      · exact h

end Deserted

/-- A channel whose consumer is gone stays without one, and refuses everything. -/
theorem Acts.deserted (hacts : ch.Acts c who r x ch') : (ch.Deserted ∨ r = .closeInlet (.channel c) → ch'.Deserted) ∧
    (ch.Deserted → r.Writes c → ∃ y, x = some y ∧ r.FindsGone y) := by
  have hread {r : Request} (hclose : r ≠ .closeInlet (.channel c)) (hstep : ch.Deserted → ch'.Deserted) :
      ch.Deserted ∨ r = .closeInlet (.channel c) → ch'.Deserted := fun h => hstep (h.resolve_right hclose)
  cases hacts with
  | apart x hr =>
    refine ⟨fun h => h.resolve_right ?_, fun _ hwrites => absurd ?_ hr⟩
    · rintro rfl
      exact hr rfl
    · cases r <;> first | exact hwrites | exact hwrites.1 | exact hwrites.elim
  | line => exact ⟨hread (by simp) (·.line who), fun _ h => h.elim⟩
  | toEnd => exact ⟨hread (by simp) (·.toEnd who), fun _ h => h.elim⟩
  | upTo count => exact ⟨hread (by simp) (·.upTo who count), fun _ h => h.elim⟩
  | item m => exact ⟨hread (by simp) (·.item who m), fun _ h => h.elim⟩
  | closeInlet => exact ⟨fun _ => ⟨rfl, rfl⟩, fun _ h => h.elim⟩
  | closeOutlet =>
    refine ⟨hread (by simp) fun h => ⟨?_, h.values⟩, fun _ h => h.elim⟩
    unfold dropOutlet
    split <;> exact h.bytes
  | write data =>
    have hbroken : ch.Deserted → data ≠ [] → ch.write who data = (.broken, ch) := fun h hdata => by
      simp [Channel.write, BytePipe.write, hdata, h.bytes]
    refine ⟨hread (by simp) fun h => ?_, fun h hwrites => ?_⟩
    · by_cases hdata : data = []
      · rw [hdata]
        exact h
      · rw [hbroken h hdata]
        exact h
    · rw [hbroken h hwrites.2]
      exact ⟨_, rfl, rfl⟩
  | put v =>
    have hbroken : ch.Deserted → ch.put v = (.broken, ch) := fun h => by simp [Channel.put, ValueQueue.put, h.values]
    refine ⟨hread (by simp) fun h => ?_, fun h hwrites => ?_⟩
    · rw [hbroken h]
      exact h
    · rw [hbroken h]
      exact ⟨_, rfl, rfl⟩

end Channel

end DualShell
