import DualShell.Proofs.Stream.Line

/-!
# All lines of some bytes

Reading line by line gives the lines of the bytes that a supply will ever hand out, in whatever pieces it hands them out
and however often a read has to wait (`LineReader.Reads.lines`): a step reads the first of the lines that are left, or
leaves them as they are. Texts that were written as lines are read again as they were (`linesOf_written`).
-/

namespace DualShell

/-! ## Texts as lines -/

/-- A text that can be written as a line: it has no newline, and no carriage return in front of the one that follows it. -/
structure IsLine (s : String) : Prop where
  newline : '\n' ∉ s.toList
  noReturn : s.toList.getLast? ≠ some '\r'

/-- The bytes of texts of which each is followed by a newline. -/
def written (ss : List String) : Bytes := ss.flatMap fun s => Utf8.encode (s ++ "\n")

/-- A line is encoded as its text and a newline. -/
theorem encode_line (s : String) : Utf8.encode (s ++ "\n") = Utf8.encode s ++ [10] := by
  have hnewline : Utf8.encode "\n" = [10] := by decide +kernel
  rw [Utf8.encode_append, hnewline]

/-- Strings are written one line after another. -/
theorem written_cons (s : String) (ss : List String) : written (s :: ss) = Utf8.encode s ++ 10 :: written ss := by
  rw [written, List.flatMap_cons, encode_line, List.append_assoc]
  rfl

/-- The first line of bytes is what stands before the first newline. -/
theorem linesOf_line {front : Bytes} (h : 10 ∉ front) (rest : Bytes) :
    linesOf [] (front ++ 10 :: rest) = endedLine front :: linesOf [] rest := by
  rw [linesOf_append, linesOf_ended h]
  rfl

namespace IsLine

variable {s : String}

/-- The bytes of a line hold no newline. -/
theorem encode (h : IsLine s) : 10 ∉ Utf8.encode s := by
  intro hmem
  exact h.newline (Utf8.mem_of_mem_encode (by decide) hmem)

/-- The bytes of a line show its text. -/
theorem endedLine_encode (h : IsLine s) : endedLine (Utf8.encode s) = s := by
  unfold endedLine
  rw [Utf8.decodeLenient_encode]
  exact if_neg (by simpa using h.noReturn)

end IsLine

/-- The lines of what was written as lines. -/
theorem linesOf_written {ss : List String} (h : ∀ s ∈ ss, IsLine s) : linesOf [] (written ss) = ss := by
  induction ss with
  | nil => rfl
  | cons s ss ih =>
    obtain ⟨hs, hss⟩ := List.forall_mem_cons.1 h
    rw [written_cons, linesOf_line hs.encode, hs.endedLine_encode, ih hss]

/-- A carriage return inside a line stays where it is. -/
example : linesOf [] (written ["", "a\rb", "\u00fc"]) = ["", "a\rb", "\u00fc"] := by decide +kernel

/-! ## Reading them -/

namespace LineReader

variable {σ : Type} {fetch : Nat → σ → Fetch × σ} {coming : σ → Bytes} {r r' : LineReader} {s s' : σ}

/-- What a step of a read of a line leaves of the lines that are to be read. -/
def Leaves (unread unread' : Bytes) : Step (Option String) → Prop
  | .done none => unread = [] ∧ unread' = []
  | .done (some text) => linesOf [] unread = text :: linesOf [] unread'
  | .blocked | .more | .failed _ => unread' = unread

/-- A step reads the first line or leaves all lines, whatever the supply hands out. -/
theorem line_leaves (h : Supplies fetch coming) (hbegun : 10 ∉ r.begun) :
    Leaves (r.held ++ coming s) ((line fetch r s).2.1.held ++ coming (line fetch r s).2.2) (line fetch r s).1 ∧
      10 ∉ (line fetch r s).2.1.begun := by
  unfold line
  split
  · rename_i hahead
    have hahead : r.ahead = [] := by simpa using hahead
    split
    · rename_i hfetch
      exact ⟨congrArg (r.held ++ ·) (h.pending hfetch), hbegun⟩
    · rename_i hfetch
      exact ⟨congrArg (r.held ++ ·) (h.failed hfetch), hbegun⟩
    · rename_i data s' hfetch
      obtain ⟨hcoming, hend⟩ := h.bytes (by decide) hfetch
      split
      · rename_i hdata
        have hnil : data = [] := by simpa using hdata
        have hcoming' := hend hnil
        have hunread : r.held ++ coming s = r.begun := by simp [held, begun, hahead, hcoming, hnil, hcoming']
        split
        · rename_i hstarted
          have hstarted : r.started = [] := by simpa using hstarted
          exact ⟨⟨by simp [hunread, begun, hstarted], by simp [held, hahead, hstarted, hcoming']⟩, hbegun⟩
        · rename_i hstarted
          have hne : r.started ≠ [] := by simpa using hstarted
          refine ⟨?_, List.not_mem_nil⟩
          have hlast : linesOf [] r.begun = [Utf8.decodeLenient r.begun] :=
            linesOf_unended hbegun (by simpa [begun] using hne)
          rw [hunread]
          simpa [Leaves, held, hahead, hcoming', linesOf, begun] using hlast
      · refine ⟨?_, hbegun⟩
        simp [Leaves, held, hahead, hcoming]
  · split
    · rename_i front rest hsplit
      have hfront : 10 ∉ r.begun ++ front := List.not_mem_append hbegun (splitLine_front hsplit)
      refine ⟨?_, List.not_mem_nil⟩
      have hline := linesOf_line hfront (rest ++ coming s)
      simpa [Leaves, held, pass, begun, splitLine_eq_some hsplit] using hline
    · rename_i hsplit
      refine ⟨?_, ?_⟩
      · simp [Leaves, held, pass]
      · simpa [begun, pass] using List.not_mem_append hbegun (splitLine_eq_none hsplit)

/-- Reads of lines one after another, each of which takes some steps: the lines that were read. -/
inductive Reads (fetch : Nat → σ → Fetch × σ) (r : LineReader) (s : σ) : List String → LineReader → σ → Prop
  | start : Reads fetch r s [] r s
  /-- A read goes on, or waits and is called again. -/
  | on {got : List String} {r' : LineReader} {s' : σ} (h : Reads fetch r s got r' s')
      (hstep : (line fetch r' s').1 = .more ∨ (line fetch r' s').1 = .blocked) :
      Reads fetch r s got (line fetch r' s').2.1 (line fetch r' s').2.2
  | ended {got : List String} {r' r'' : LineReader} {s' s'' : σ} {text : String} (h : Reads fetch r s got r' s')
      (hstep : line fetch r' s' = (.done (some text), r'', s'')) : Reads fetch r s (got ++ [text]) r'' s''

/-- The lines that were read and those that are left are the lines of the bytes. -/
theorem Reads.lines {got : List String} (hreads : Reads fetch r s got r' s') (h : Supplies fetch coming)
    (hbegun : 10 ∉ r.begun) :
    got ++ linesOf [] (r'.held ++ coming s') = linesOf [] (r.held ++ coming s) ∧ 10 ∉ r'.begun := by
  induction hreads with
  | start => exact ⟨rfl, hbegun⟩
  | @on got r' s' _ hstep ih =>
    obtain ⟨hgot, hbegun'⟩ := ih
    obtain ⟨hleaves, hbegun''⟩ := line_leaves (s := s') h hbegun'
    refine ⟨?_, hbegun''⟩
    have hunread : (line fetch r' s').2.1.held ++ coming (line fetch r' s').2.2 = r'.held ++ coming s' := by
      obtain hmore | hblocked := hstep
      · rw [hmore] at hleaves
        exact hleaves
      · rw [hblocked] at hleaves
        exact hleaves
    rw [hunread, hgot]
  | @ended got r' r'' s' s'' text _ hstep ih =>
    obtain ⟨hgot, hbegun'⟩ := ih
    obtain ⟨hleaves, hbegun''⟩ := line_leaves (s := s') h hbegun'
    rw [hstep] at hleaves hbegun''
    refine ⟨?_, hbegun''⟩
    rw [← hgot, show linesOf [] (r'.held ++ coming s') = _ from hleaves, List.append_assoc]
    rfl

/-- A bound for the steps until all lines were read, if no read has to wait. -/
def effort (r : LineReader) (coming : Bytes) : Nat := 3 * coming.length + 2 * r.ahead.length + r.started.length

/-- Where the supply always hands out something, and nothing only at the end, a step goes on, reads a line or finds that
there is none; and what there is still to do gets less as long as there is a line. -/
theorem line_lessens {data : Bytes} (h : Supplies fetch coming)
    (hfetch : r.ahead = [] → ∃ s', fetch fetchSize s = (.bytes data, s')) :
    ((line fetch r s).1 = .done none ∧ r.held ++ coming s = []) ∨
      (((line fetch r s).1 = .more ∨ ∃ text, (line fetch r s).1 = .done (some text)) ∧
        (line fetch r s).2.1.effort (coming (line fetch r s).2.2) < r.effort (coming s)) := by
  by_cases hahead : r.ahead = []
  · obtain ⟨s', hfetch⟩ := hfetch hahead
    obtain ⟨hcoming, hend⟩ := h.bytes (by decide) hfetch
    by_cases hdata : data = []
    · have hcoming' := hend hdata
      by_cases hstarted : r.started = []
      · left
        simp [line, hahead, hfetch, hdata, hstarted, held, hcoming, hcoming']
      · right
        have hpos : 0 < r.started.length := List.length_pos_of_ne_nil hstarted
        simp [line, hahead, hfetch, hdata, hstarted, effort, hcoming, hcoming', hpos]
    · right
      have hpos : 0 < data.length := List.length_pos_of_ne_nil hdata
      simp only [line, hahead, hfetch, hdata, effort, hcoming, List.isEmpty_nil, List.isEmpty_iff, if_true, if_false,
        List.length_append, List.length_nil, true_or, true_and]
      omega
  · right
    have hpos : 0 < r.ahead.length := List.length_pos_of_ne_nil hahead
    cases hsplit : splitLine r.ahead with
    | some parts =>
      obtain ⟨front, rest⟩ := parts
      have hlength : r.ahead.length = front.length + (rest.length + 1) := by
        rw [splitLine_eq_some hsplit, List.length_append, List.length_cons]
      simp only [line, List.isEmpty_iff, hahead, if_false, hsplit, effort, List.length_nil]
      exact ⟨.inr ⟨_, rfl⟩, by omega⟩
    | none =>
      simp only [line, List.isEmpty_iff, hahead, if_false, hsplit, effort, pass, List.length_nil, List.reverseAux_eq,
        List.length_append, List.length_reverse, true_or, true_and]
      omega

end LineReader

end DualShell
