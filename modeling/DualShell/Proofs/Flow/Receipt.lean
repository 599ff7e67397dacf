import DualShell.Eval.Builtin
import DualShell.Proofs.Stream.Lines

/-!
# What a form receives

A task that reads the bytes of a pipe and puts values: what it puts in the end does not depend on how many bytes each
read of the pipe returns (`Task.Receives`). Like what a form supplies, this is read off the tree of requests and
composes along `bind`. Reading line by line gives the lines of all bytes (`Eval.receives_putLines`), reading to the end
gives them in one piece (`Eval.receives_readAll`).
-/

namespace DualShell

/-! ## A supply in pieces -/

/-- Hand out so many of the bytes that will ever be there. -/
def handOut (n : Nat) : Nat → Bytes → Fetch × Bytes := fun _ coming => (.bytes (coming.take n), coming.drop n)

/-- To hand out pieces of a supply is to supply it. -/
theorem supplies_handOut {n : Nat} (hn : 0 < n) : Supplies (handOut n) id where
  bytes {_ coming _ _} _ hfetch := by
    obtain ⟨hdata, rfl⟩ := Prod.mk.inj hfetch
    cases hdata
    refine ⟨(List.take_append_drop n coming).symm, ?_⟩
    intro hnil
    obtain hzero | hnil := List.take_eq_nil_iff.1 hnil
    · omega
    · rw [hnil]
      exact List.drop_nil
  pending hfetch := nomatch hfetch
  failed hfetch := nomatch hfetch

namespace LineReader

/-- Nothing was fetched and nothing will come: a step finds the end. -/
def atEnd (r : LineReader) (coming : Bytes) : Bool := r.ahead.isEmpty && coming.isEmpty

/-- A kind of read, over any supply. -/
abbrev Kind (α : Type) : Type 1 := {σ : Type} → (Nat → σ → Fetch × σ) → LineReader → σ → Step α × LineReader × σ

/-- The reader gets these bytes if it fetches, and else none. -/
def Fetches {σ : Type} (fetch : Nat → σ → Fetch × σ) (r : LineReader) (s : σ) (data : Bytes) (s' : σ) : Prop :=
  if r.ahead = [] then fetch fetchSize s = (.bytes data, s') else s' = s

/-- A step of the read depends on the supply only in what is fetched. -/
structure Steady {α : Type} (step : Kind α) : Prop where
  moves : ∀ (r : LineReader) (data : Bytes), ∃ out r', out ≠ .blocked ∧
    ∀ {σ : Type} (fetch : Nat → σ → Fetch × σ) (s s' : σ), Fetches fetch r s data s' → step fetch r s = (out, r', s')
  waits : ∀ {σ : Type} (fetch : Nat → σ → Fetch × σ) (r : LineReader) (s s' : σ), r.ahead = [] →
    fetch fetchSize s = (.pending, s') → step fetch r s = (.blocked, r, s')

/-- Lines are the same however the bytes come in pieces. -/
theorem steady_line : Steady @line where
  moves r data := by
    by_cases hahead : r.ahead = []
    · by_cases hdata : data = []
      · by_cases hstarted : r.started = []
        · refine ⟨.done none, r, by simp, ?_⟩
          intro σ fetch s s' hfetch
          rw [Fetches, if_pos hahead] at hfetch
          simp [line, hahead, hfetch, hdata, hstarted]
        · refine ⟨.done (some (Utf8.decodeLenient r.started.reverse)), { r with started := [] }, by simp, ?_⟩
          intro σ fetch s s' hfetch
          rw [Fetches, if_pos hahead] at hfetch
          simp [line, hahead, hfetch, hdata, hstarted]
      · refine ⟨.more, { r with ahead := data }, by simp, ?_⟩
        intro σ fetch s s' hfetch
        rw [Fetches, if_pos hahead] at hfetch
        simp [line, hahead, hfetch, hdata]
    · cases hsplit : splitLine r.ahead with
      | some parts =>
        refine ⟨.done (some (endedLine (r.pass parts.1).started.reverse)), ⟨[], parts.2⟩, by simp, ?_⟩
        intro σ fetch s s' hfetch
        rw [Fetches, if_neg hahead] at hfetch
        simp [line, hahead, hfetch, hsplit]
      | none =>
        refine ⟨.more, { r.pass r.ahead with ahead := [] }, by simp, ?_⟩
        intro σ fetch s s' hfetch
        rw [Fetches, if_neg hahead] at hfetch
        simp [line, hahead, hfetch, hsplit]
  waits fetch r s s' hahead hfetch := by simp [line, hahead, hfetch]

/-- So is what is read to the end. -/
theorem steady_toEnd : Steady @toEnd where
  moves r data := by
    by_cases hahead : r.ahead = []
    · by_cases hdata : data = []
      · refine ⟨.done r.started.reverse, { r with started := [] }, by simp, ?_⟩
        intro σ fetch s s' hfetch
        rw [Fetches, if_pos hahead] at hfetch
        simp [toEnd, hahead, hfetch, hdata]
      · refine ⟨.more, r.pass data, by simp, ?_⟩
        intro σ fetch s s' hfetch
        rw [Fetches, if_pos hahead] at hfetch
        simp [toEnd, hahead, hfetch, hdata]
    · refine ⟨.more, { r.pass r.ahead with ahead := [] }, by simp, ?_⟩
      intro σ fetch s s' hfetch
      rw [Fetches, if_neg hahead] at hfetch
      simp [toEnd, hahead, hfetch]
  waits fetch r s s' hahead hfetch := by simp [toEnd, hahead, hfetch]

end LineReader

/-! ## Requests that read -/

/-- What a step towards a line is to a consumer of items: a line is an item, and at the end there are no more lines. -/
def lineAnswer : Step (Option String) → Step (Option Value) × Merging
  | .done (some line) => (.done (some (.string line)), Side.bytes.only)
  | .done none => (.more, ⟨false, false⟩)
  | .more => (.more, Side.bytes.only)
  | .failed cause => (.failed cause, Side.bytes.only)
  | .blocked => (.blocked, Side.bytes.only)

/-- The request reads the bytes of a channel step by step: it has to wait where a step is blocked, and is answered by
what else it comes to. -/
structure Request.ReadsBy {α : Type} (q : Request) (i : ChannelId) (step : LineReader.Kind α)
    (answer : Step α → q.Response) : Prop where
  waits : ∀ {w : World} {who : TaskId} {c c' : Channel}, w.channels[i]? = some c →
    c.reading (step (BytePipe.fetch who)) = (.blocked, c') →
    w.perform who q = (none, { w with channels := w.channels.setIfInBounds i c' })
  moves : ∀ {w : World} {who : TaskId} {c c' : Channel} {out : Step α}, w.channels[i]? = some c →
    c.reading (step (BytePipe.fetch who)) = (out, c') → out ≠ .blocked →
    w.perform who q = (some (answer out), { w with channels := w.channels.setIfInBounds i c' })

namespace Request

/-- A request for a line reads a line. -/
theorem reads_line (i : ChannelId) : (Request.line (.channel i)).ReadsBy i LineReader.line id where
  waits hc hread := by simp only [World.perform, World.line, World.reading, hc, Channel.line, hread, World.answerStep]
  moves {_ _ _ _ out} hc hread hout := by
    simp only [World.perform, World.line, World.reading, hc, Channel.line, hread]
    cases out <;> first | rfl | exact absurd rfl hout

/-- A request to read to the end does that. -/
theorem reads_toEnd (i : ChannelId) : (Request.toEnd (.channel i)).ReadsBy i LineReader.toEnd id where
  waits hc hread := by simp only [World.perform, World.toEnd, World.reading, hc, Channel.toEnd, hread, World.answerStep]
  moves {_ _ _ _ out} hc hread hout := by
    simp only [World.perform, World.toEnd, World.reading, hc, Channel.toEnd, hread]
    cases out <;> first | rfl | exact absurd rfl hout

/-- A reader of lines gets no values. -/
theorem item_lines {who : TaskId} {c c' : Channel} {out : Step (Option String)}
    (hread : c.reading (LineReader.line (BytePipe.fetch who)) = (out, c')) :
    c.item .values who Side.bytes.only = ((lineAnswer out).1, (lineAnswer out).2, c') := by
  have hline : c.line who = (out, c') := hread
  rcases out with _ | _ | (_ | _) | _ <;> simp [Channel.item, Channel.valueItem, Channel.lineItem, Side.only,
    hline, lineAnswer]

/-- Who takes the items of the bytes alone reads lines. -/
theorem reads_item (i : ChannelId) : (Request.item (.channel i) Side.bytes.only).ReadsBy i LineReader.line lineAnswer where
  waits hc hread := by simp only [World.perform, World.item, hc, item_lines hread, lineAnswer]
  moves {_ _ _ _ out} hc hread hout := by
    simp only [World.perform, World.item, hc, item_lines hread]
    rcases out with _ | _ | (_ | _) | _ <;> first | rfl | exact absurd rfl hout

end Request

/-! ## The tasks -/

/-- The task, which reads from a channel and puts values on a collector, puts the values up to those that `Q` holds of,
whichever number of bytes each of its reads fetches: of the reader's state and the bytes that it will ever get. It knows
whether it has seen their end. -/
inductive Task.Receives {α : Type} (i : ChannelId) (o : CollectorId)
    (Q : α → Bool → LineReader → Bytes → List Value → Prop) :
    Task α → (past : Bool) → LineReader → (coming : Bytes) → List Value → Prop
  | ret {a : α} {past : Bool} {r : LineReader} {coming : Bytes} {values : List Value} (h : Q a past r coming values) :
      Receives i o Q (.ret a) past r coming values
  | read {β : Type} {q : Request} {step : LineReader.Kind β} {answer : Step β → q.Response} {next : q.Response → Task α}
      {past : Bool}
      {r : LineReader} {coming : Bytes} {values : List Value} (hq : q.ReadsBy i step answer)
      (hstep : LineReader.Steady @step)
      (hnext : ∀ n, 0 < n → Receives i o Q (next (answer (step (handOut n) r coming).1)) (past || r.atEnd coming)
        (step (handOut n) r coming).2.1 (step (handOut n) r coming).2.2 values) :
      Receives i o Q (.request q next) past r coming values
  /-- Neither stream is wanted any more. -/
  | closed {next : Step (Option Value) × Merging → Task α} {past : Bool} {r : LineReader} {coming : Bytes}
      {values : List Value} (hnext : Receives i o Q (next (.done none, ⟨false, false⟩)) past r coming values) :
      Receives i o Q (.request (.item (.channel i) ⟨false, false⟩) next) past r coming values
  | put {v : Value} {next : Except Cause Unit → Task α} {past : Bool} {r : LineReader} {coming : Bytes} {values : List Value}
      (hnext : Receives i o Q (next (.ok ())) past r coming values) :
      Receives i o Q (.request (.put (.collector o) v) next) past r coming (v :: values)

namespace Task.Receives

variable {α β : Type} {i : ChannelId} {o : CollectorId} {Q : α → Bool → LineReader → Bytes → List Value → Prop}
    {t : Task α} {past : Bool}
  {r : LineReader} {coming : Bytes} {values : List Value}

/-- Less may be concluded of what a task receives. -/
theorem mono {R : α → Bool → LineReader → Bytes → List Value → Prop} (h : t.Receives i o Q past r coming values)
    (hQ : ∀ a past r coming values, Q a past r coming values → R a past r coming values) :
    t.Receives i o R past r coming values := by
  induction h with
  | ret h => exact .ret (hQ _ _ _ _ _ h)
  | read hq hstep _ ih => exact .read hq hstep ih
  | closed _ ih => exact .closed ih
  | put _ ih => exact .put ih

/-- Tasks receive one after another. -/
theorem bind {f : α → Task β} {R : β → Bool → LineReader → Bytes → List Value → Prop}
    (h : t.Receives i o (fun a past r coming values => (f a).Receives i o R past r coming values) past r coming values) :
    (t.bind f).Receives i o R past r coming values := by
  induction h with
  | ret h => exact h
  | read hq hstep _ ih => exact .read hq hstep ih
  | closed _ ih => exact .closed ih
  | put _ ih => exact .put ih

/-- A step towards a line finds the end, a part of a line, or a line; and what there is still to do gets less before the
end. -/
theorem line {q : Request} {answer : Step (Option String) → q.Response} {next : q.Response → Task α}
    (hq : q.ReadsBy i LineReader.line answer) (hbegun : 10 ∉ r.begun)
    (hend : r.held ++ coming = [] → (next (answer (.done none))).Receives i o Q true r [] values)
    (hmore : ∀ past' r' coming', r'.held ++ coming' = r.held ++ coming → 10 ∉ r'.begun →
      r'.effort coming' < r.effort coming → (next (answer .more)).Receives i o Q past' r' coming' values)
    (htext : ∀ past' r' coming' text, linesOf [] (r.held ++ coming) = text :: linesOf [] (r'.held ++ coming') →
      10 ∉ r'.begun →
      r'.effort coming' < r.effort coming → (next (answer (.done (some text)))).Receives i o Q past' r' coming' values) :
    (Task.request q next).Receives i o Q past r coming values := by
  refine .read hq LineReader.steady_line fun n hn => ?_
  have hsupplies := supplies_handOut hn
  obtain ⟨hleaves, hbegun'⟩ := LineReader.line_leaves (s := coming) hsupplies hbegun
  obtain ⟨hnone, hunread⟩ | ⟨hmore' | ⟨text, htext'⟩, hless⟩ :=
    LineReader.line_lessens (s := coming) (r := r) hsupplies fun _ => ⟨coming.drop n, rfl⟩
  · obtain ⟨hheld, hcoming⟩ := List.append_eq_nil_iff.1 hunread
    obtain ⟨hstarted, hahead⟩ := List.append_eq_nil_iff.1 hheld
    have hnil : coming = [] := hcoming
    subst hnil
    have hstep : LineReader.line (handOut n) r [] = (.done none, r, []) := by
      simp [LineReader.line, hahead, handOut, List.reverse_eq_nil_iff.1 hstarted]
    rw [hstep, show (past || r.atEnd []) = true by simp [LineReader.atEnd, hahead]]
    exact hend hunread
  · rw [hmore'] at hleaves ⊢
    exact hmore _ _ _ hleaves hbegun' hless
  · rw [htext'] at hleaves ⊢
    exact htext _ _ _ text hleaves hbegun' hless

end Task.Receives

namespace Eval

variable {α β : Type} {i : ChannelId} {o : CollectorId} {past : Bool} {r : LineReader} {coming : Bytes} {values : List Value}

/-- The evaluation receives bytes. -/
abbrev Receives (i : ChannelId) (o : CollectorId)
    (Q : Except Exception α → Bool → LineReader → Bytes → List Value → Prop) (x : Eval α)
    (past : Bool) (r : LineReader) (coming : Bytes) (values : List Value) : Prop :=
  Task.Receives i o Q x.run past r coming values

theorem receives_pure {Q : Except Exception α → Bool → LineReader → Bytes → List Value → Prop} {a : α}
    (h : Q (.ok a) past r coming values) : (pure a : Eval α).Receives i o Q past r coming values := .ret h

theorem receives_bind {x : Eval α} {f : α → Eval β} {R : Except Exception β → Bool → LineReader → Bytes → List Value → Prop}
    (h : x.Receives i o (fun a past r coming values =>
      match a with
      | .ok a => (f a).Receives i o R past r coming values
      | .error ex =>
        R (.error ex) past r coming values) past r coming values) : (x >>= f).Receives i o R past r coming values := by
  refine Task.Receives.bind (h.mono ?_)
  intro a past r coming values ha
  cases a with
  | ok a => exact ha
  | error ex => exact .ret ha

/-- What is put to the collector joins what was received. -/
theorem receives_put {ctx : Context} (houtput : ctx.descriptors.output? 1 = some (.collector o))
    {Q : Except Exception Unit → Bool → LineReader → Bytes → List Value → Prop} {v : Value}
    (h : Q (.ok ()) past r coming values) : (ctx.put v).Receives i o Q past r coming (v :: values) := by
  have houtlet : ctx.descriptors.expectOutput 1 = .ok (.collector o) := by simp [Descriptors.expectOutput, houtput]
  unfold Context.put
  simp only [houtlet]
  exact Task.Receives.put (.ret h)

/-- Values that are put to the collector join what was received. -/
theorem receives_putAll {ctx : Context} (houtput : ctx.descriptors.output? 1 = some (.collector o))
    {Q : Except Exception Unit → Bool → LineReader → Bytes → List Value → Prop} (vs : List Value)
    (h : Q (.ok ()) past r coming values) : (ctx.putAll vs).Receives i o Q past r coming (vs ++ values) := by
  induction vs with
  | nil => exact receives_pure h
  | cons v vs ih =>
    unfold Context.putAll
    exact receives_bind (receives_put houtput ih)

/-- All bytes are read to the end. -/
theorem receives_readAll {Q : Except Exception Bytes → Bool → LineReader → Bytes → List Value → Prop} {bound : Nat}
    (hbound : coming.length < bound) (hahead : r.ahead = []) (h : Q (.ok (r.begun ++ coming)) true .empty [] values) :
    ((Inlet.channel i).readAll bound).Receives i o Q past r coming values := by
  induction bound generalizing past r coming with
  | zero => exact absurd hbound (Nat.not_lt_zero _)
  | succ bound ih =>
    unfold Inlet.readAll
    refine Task.Receives.read (Request.reads_toEnd i) LineReader.steady_toEnd fun n hn => ?_
    by_cases hcoming : coming = []
    · subst hcoming
      have hstep : LineReader.toEnd (handOut n) r [] = (.done r.started.reverse, .empty, []) := by
        simp [LineReader.toEnd, hahead, handOut, LineReader.empty]
      rw [hstep, show (past || r.atEnd []) = true by simp [LineReader.atEnd, hahead]]
      rw [List.append_nil] at h
      exact .ret h
    · have htake : coming.take n ≠ [] := by
        simp only [ne_eq, List.take_eq_nil_iff, hcoming, or_false]
        omega
      have hstep : LineReader.toEnd (handOut n) r coming = (.more, r.pass (coming.take n), coming.drop n) := by
        simp [LineReader.toEnd, hahead, handOut, htake]
      have hfewer : (coming.drop n).length < bound := by
        have hpos : 0 < coming.length := List.length_pos_of_ne_nil hcoming
        rw [List.length_drop]
        omega
      have hall : (r.pass (coming.take n)).begun ++ coming.drop n = r.begun ++ coming := by
        simp [LineReader.begun, LineReader.pass]
      rw [hstep]
      exact ih hfewer hahead (hall ▸ h)

/-- The next line is read, or none is found at the end. -/
theorem receives_nextLine {Q : Except Exception (Option String) → Bool → LineReader → Bytes → List Value → Prop}
    {bound : Nat}
    (hbound : r.effort coming < bound) (hbegun : 10 ∉ r.begun)
    (hend : r.held ++ coming = [] → ∀ r', Q (.ok none) true r' [] values)
    (htext : ∀ past' r' coming' text, linesOf [] (r.held ++ coming) = text :: linesOf [] (r'.held ++ coming') →
      10 ∉ r'.begun → r'.effort coming' ≤ r.effort coming → Q (.ok (some text)) past' r' coming' values) :
    ((Inlet.channel i).nextLine bound).Receives i o Q past r coming values := by
  induction bound generalizing past r coming with
  | zero => exact absurd hbound (Nat.not_lt_zero _)
  | succ bound ih =>
    unfold Inlet.nextLine
    refine Task.Receives.line (Request.reads_line i) hbegun (fun hnil => .ret (hend hnil r)) ?_ ?_
    · intro past' r' coming' hunread hbegun' hless
      refine ih (Nat.lt_of_lt_of_le hless (Nat.le_of_lt_succ hbound)) hbegun' (fun hnil => hend (hunread ▸ hnil)) ?_
      intro past'' r'' coming'' text hlines hbegun'' heffort
      exact htext past'' r'' coming'' text (hunread ▸ hlines) hbegun'' (Nat.le_trans heffort (Nat.le_of_lt hless))
    · intro past' r' coming' text hlines hbegun' hless
      exact .ret (htext past' r' coming' text hlines hbegun' (Nat.le_of_lt hless))

/-- Who takes the items of the bytes alone gets the next line as a string, or none at the end. -/
theorem receives_nextItem {Q : Except Exception (Option Value × Merging) → Bool → LineReader → Bytes → List Value →
      Prop} {bound : Nat}
    (hbound : r.effort coming + 1 < bound) (hbegun : 10 ∉ r.begun)
    (hend : r.held ++ coming = [] → ∀ r', Q (.ok (none, ⟨false, false⟩)) true r' [] values)
    (htext : ∀ past' r' coming' text, linesOf [] (r.held ++ coming) = text :: linesOf [] (r'.held ++ coming') →
      10 ∉ r'.begun →
      r'.effort coming' ≤ r.effort coming → Q (.ok (some (.string text), Side.bytes.only)) past' r' coming' values) :
    ((Inlet.channel i).nextItem bound Side.bytes.only).Receives i o Q past r coming values := by
  induction bound generalizing past r coming with
  | zero => exact absurd hbound (Nat.not_lt_zero _)
  | succ bound ih =>
    unfold Inlet.nextItem
    refine Task.Receives.line (Request.reads_item i) hbegun (fun hnil => ?_) ?_ ?_
    · obtain ⟨bound, rfl⟩ := Nat.exists_eq_add_of_le' (Nat.le_trans (Nat.le_add_left 1 _) (Nat.le_of_lt_succ hbound))
      exact Task.Receives.closed (.ret (hend hnil r))
    · intro past' r' coming' hunread hbegun' hless
      refine ih (Nat.lt_of_lt_of_le (Nat.succ_lt_succ hless) (Nat.le_of_lt_succ hbound)) hbegun'
        (fun hnil => hend (hunread ▸ hnil)) ?_
      intro past'' r'' coming'' text hlines hbegun'' heffort
      exact htext past'' r'' coming'' text (hunread ▸ hlines) hbegun'' (Nat.le_trans heffort (Nat.le_of_lt hless))
    · intro past' r' coming' text hlines hbegun' hless
      exact .ret (htext past' r' coming' text hlines hbegun' (Nat.le_of_lt hless))

/-- All lines are put as strings. -/
theorem receives_putLines {ctx : Context} (houtput : ctx.descriptors.output? 1 = some (.collector o))
    {Q : Except Exception Unit → Bool → LineReader → Bytes → List Value → Prop} {bound rounds : Nat}
    (hbound : r.effort coming < bound)
    (hrounds : (linesOf [] (r.held ++ coming)).length < rounds) (hbegun : 10 ∉ r.begun)
    (h : ∀ r', Q (.ok ()) true r' [] values) :
    (putLines ctx bound (.channel i) rounds).Receives i o Q past r coming
    ((linesOf [] (r.held ++ coming)).map .string ++ values) := by
  induction rounds generalizing past r coming with
  | zero => exact absurd hrounds (Nat.not_lt_zero _)
  | succ rounds ih =>
    unfold putLines
    refine receives_bind (receives_nextLine hbound hbegun ?_ ?_)
    · intro hnil r'
      rw [hnil]
      exact receives_pure (h r')
    · intro past' r' coming' text hlines hbegun' heffort
      rw [hlines] at hrounds ⊢
      exact receives_bind
        (receives_put houtput (ih (Nat.lt_of_le_of_lt heffort hbound) (Nat.lt_of_succ_lt_succ hrounds) hbegun'))

/-- A reader of the output of a capture collects all lines as strings. -/
theorem receives_gather {Q : Except Exception Unit → Bool → LineReader → Bytes → List Value → Prop} {bound : Nat}
    (hbound : r.effort coming + 1 < bound) (hrounds : (linesOf [] (r.held ++ coming)).length < bound) (hbegun : 10 ∉ r.begun)
    (h : ∀ r', Q (.ok ()) true r' [] values) :
    (gather .bytes i o bound).Receives i o Q past r coming ((linesOf [] (r.held ++ coming)).map .string ++ values) := by
  have hvisit : ∀ rounds past r coming, r.effort coming + 1 < bound → (linesOf [] (r.held ++ coming)).length < rounds →
    10 ∉ r.begun →
      (visitStream bound (fun v => do ofExcept (← ask (.put (.collector o) v)); return .next) (.channel i) rounds
        Side.bytes.only).Receives i o Q past r coming ((linesOf [] (r.held ++ coming)).map .string ++ values) := by
    intro rounds
    induction rounds with
    | zero => exact fun past r coming _ hrounds => absurd hrounds (Nat.not_lt_zero _)
    | succ rounds ih =>
      intro past r coming hbound hrounds hbegun
      unfold visitStream
      refine receives_bind (receives_nextItem hbound hbegun ?_ ?_)
      · intro hnil r'
        rw [hnil]
        exact receives_pure (h r')
      · intro past' r' coming' text hlines hbegun' heffort
        rw [hlines] at hrounds ⊢
        have hrest := ih past' r' coming' (by omega) (Nat.lt_of_succ_lt_succ hrounds) hbegun'
        exact receives_bind (Task.Receives.put (.ret hrest))
  exact hvisit bound past r coming hbound hrounds hbegun

end Eval

end DualShell
