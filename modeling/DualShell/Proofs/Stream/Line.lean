import Mathlib
import DualShell.Proofs.Stream.Merged
import DualShell.Proofs.Text.Encode

/-!
# Reading lines

A line is text, and what ends it is bytes. In the lenient reading a byte below 0x80 is a character of its own, whatever
stands around it (`Utf8.scan_shown_ascii`, `Utf8.lenientChars_concat`), so it is the same to look for a newline among
the bytes or in the text, and to drop a carriage return before decoding or after (`endedLine_eq`).

A port remembers the bytes that were looked at for a line that has not ended. A read of a line looks for a newline after
these only, so what it returns is one line as long as there is no newline among them. Reads of lines and of pieces keep
it so; a read to the end that is given up does not (`Port.line_read`, `Port.line_read_entangled`).
-/

namespace DualShell

/-! ## Single bytes in a text -/

namespace Utf8

/-- What a lead byte announces is no character that has a byte of its own. -/
structure Lead.Long (lead : Lead) : Prop where
  owes : 0 < lead.tails
  low : 0x80 ≤ lead.low.toNat
  high : lead.high.toNat ≤ 0xBF
  code : 0x80 ≤ (lead.payload * 64 + (lead.low.toNat - 0x80)) * 64 ^ (lead.tails - 1)

/-- The lead of a character of several bytes says how many follow. -/
theorem Lead.long {b : UInt8} {lead : Lead} (h : Lead.of? b = some lead) : lead.Long := by
  rw [Lead.of?_eq] at h
  repeat' split at h
  all_goals cases h
  all_goals constructor
  all_goals dsimp only [UInt8.reduceToNat]
  all_goals omega

/-- The code of a character of several bytes is no smaller than what its lead says. -/
theorem tails_code {code taken owed c : Nat} {low high : UInt8} {bs : Bytes}
    (h : tails code taken low high owed bs = .whole c) : code * 64 ^ owed ≤ c := by
  induction owed generalizing code taken low high bs with
  | zero =>
    cases h
    exact Nat.le_of_eq (Nat.mul_one _)
  | succ owed ih =>
    cases bs with
    | nil => cases h
    | cons b rest =>
      unfold tails at h
      split at h
      · calc code * 64 ^ (owed + 1) = code * 64 * 64 ^ owed := by rw [Nat.pow_succ]; ac_rfl
          _ ≤ (code * 64 + (b &&& 0x3F).toNat) * 64 ^ owed := Nat.mul_le_mul_right _ (Nat.le_add_right _ _)
          _ ≤ c := ih h
      · cases h

/-- The character that a step shows. -/
def Scan.shown : Scan → Char
  | .char c _ => c
  | .broken _ | .cut _ => '\uFFFD'

/-- One character more is shown, and the bytes it took are dropped. -/
theorem lenientChars_cons (fuel : Nat) (seen : List Char) (b : UInt8) (rest : Bytes) :
    lenientChars (fuel + 1) seen (b :: rest) =
    lenientChars fuel ((scan b rest).shown :: seen) (rest.drop ((scan b rest).length - 1)) := by
  rw [lenientChars]
  cases scan b rest <;> rfl

/-- A character of several bytes is none that has a byte of its own. -/
theorem scan_long {b : UInt8} {rest : Bytes} {c : Char} {n : Nat} (hb : ¬b < 0x80) (h : scan b rest = .char c n) :
    ∃ code, 0x80 ≤ code ∧ c = Char.ofNat code := by
  rw [scan, if_neg hb] at h
  rcases hlead : Lead.of? b with _ | lead <;> simp only [hlead] at h
  · cases h
  obtain ⟨howes, hlow, hhigh, hcode⟩ := Lead.long hlead
  obtain ⟨owed, howed⟩ := Nat.exists_eq_add_of_lt howes
  rw [Nat.zero_add] at howed
  rcases htails : tails lead.payload 0 lead.low lead.high lead.tails rest with code | _ | _ <;> simp only [htails] at h
  · cases h
    refine ⟨code, ?_, rfl⟩
    rw [howed] at htails
    rw [howed, Nat.add_sub_cancel] at hcode
    cases rest with
    | nil => cases htails
    | cons a rest =>
      unfold tails at htails
      split at htails
      · rename_i hrange
        simp only [Bool.and_eq_true, decide_eq_true_eq, UInt8.le_iff_toNat_le] at hrange
        have hpart : lead.low.toNat - 0x80 ≤ (a &&& 0x3F).toNat := by
          rw [toNat_and_three_f]
          omega
        calc 0x80 ≤ (lead.payload * 64 + (lead.low.toNat - 0x80)) * 64 ^ owed := hcode
          _ ≤ (lead.payload * 64 + (a &&& 0x3F).toNat) * 64 ^ owed := Nat.mul_le_mul_right _ (Nat.add_le_add_left hpart _)
          _ ≤ code := tails_code htails
      · cases htails
  · cases h
  · cases h

/-- Characters of different codes are different. -/
theorem ofNat_inj {n m : Nat} (hm : m.isValidChar) (hpos : m ≠ 0) (h : Char.ofNat n = Char.ofNat m) : n = m := by
  unfold Char.ofNat at h
  rw [dif_pos hm] at h
  split at h
  · exact congrArg Char.toNat h
  · exact absurd (congrArg Char.toNat h).symm hpos

section

variable {a : UInt8} (ha : a < 0x80)
include ha

/-- An ASCII byte is the code of a character. -/
theorem ascii_valid : a.toNat.isValidChar := .inl (Nat.lt_trans (UInt8.lt_iff_toNat_lt.mp ha) (by decide))

/-- A character with a byte of its own is shown for this byte only. -/
theorem scan_shown_ascii {b : UInt8} {rest : Bytes} (hpos : a ≠ 0) (h : (scan b rest).shown = Char.ofNat a.toNat) :
    b = a ∧ (scan b rest).length = 1 := by
  have hne : a.toNat ≠ 0 := fun hzero => hpos (UInt8.toNat_inj.mp hzero)
  have hlt : a.toNat < 0x80 := UInt8.lt_iff_toNat_lt.mp ha
  have hinj {n : Nat} (hn : Char.ofNat n = Char.ofNat a.toNat) : n = a.toNat := ofNat_inj (ascii_valid ha) hne hn
  have hmark : '\uFFFD' ≠ Char.ofNat a.toNat := fun hmark => by
    have := hinj (n := 0xFFFD) hmark
    omega
  by_cases hb : b < 0x80
  · rw [scan, if_pos hb] at h ⊢
    exact ⟨UInt8.toNat_inj.mp (hinj h), rfl⟩
  · rcases hscan : scan b rest with ⟨c, n⟩ | n | n <;> rw [hscan] at h
    · obtain ⟨code, hcode, rfl⟩ := scan_long hb hscan
      have := hinj h
      omega
    · exact absurd h hmark
    · exact absurd h hmark

/-- And such a character in the text is this byte among the bytes. -/
theorem mem_of_mem_lenientChars {fuel : Nat} {seen : List Char} {bs : Bytes} (hpos : a ≠ 0)
    (h : Char.ofNat a.toNat ∈ lenientChars fuel seen bs) : Char.ofNat a.toNat ∈ seen ∨ a ∈ bs := by
  induction fuel generalizing seen bs with
  | zero => exact .inl (List.mem_reverse.mp h)
  | succ fuel ih =>
    cases bs with
    | nil => exact .inl (List.mem_reverse.mp h)
    | cons b rest =>
      rw [lenientChars_cons] at h
      obtain hseen | hrest := ih h
      · obtain hshown | hseen := List.mem_cons.mp hseen
        · obtain ⟨rfl, -⟩ := scan_shown_ascii ha hpos hshown.symm
          exact .inr List.mem_cons_self
        · exact .inl hseen
      · exact .inr (List.mem_cons_of_mem _ (List.mem_of_mem_drop hrest))

/-- A text ends in an ASCII character only if the bytes do. -/
theorem getLast?_of_lenientChars {fuel : Nat} {seen : List Char} {bs : Bytes} (hpos : a ≠ 0) (hfuel : bs.length ≤ fuel)
    (hne : bs ≠ []) (h : (lenientChars fuel seen bs).getLast? = some (Char.ofNat a.toNat)) : bs.getLast? = some a := by
  induction fuel generalizing seen bs with
  | zero => exact absurd (List.eq_nil_of_length_eq_zero (Nat.le_zero.mp hfuel)) hne
  | succ fuel ih =>
    cases bs with
    | nil => exact absurd rfl hne
    | cons b rest =>
      rw [lenientChars_cons] at h
      rcases hdrop : rest.drop ((scan b rest).length - 1) with _ | ⟨b', rest'⟩
      · have hend : lenientChars fuel ((scan b rest).shown :: seen) [] = seen.reverse ++ [(scan b rest).shown] := by
          cases fuel <;> exact List.reverse_cons
        rw [hdrop, hend, List.getLast?_concat] at h
        obtain ⟨rfl, hlength⟩ := scan_shown_ascii ha hpos (Option.some.inj h)
        rw [hlength] at hdrop
        rw [show rest = [] from hdrop]
        rfl
      · rw [hdrop] at h
        have hlength : (b' :: rest').length ≤ fuel := by
          rw [← hdrop, List.length_drop]
          exact Nat.le_trans (Nat.sub_le _ _) (Nat.le_of_succ_le_succ hfuel)
        have hlast := ih hlength (List.cons_ne_nil _ _) h
        have hsuffix : (b' :: rest') <:+ (b :: rest) := hdrop ▸ (List.drop_suffix _ _).trans (List.suffix_cons b rest)
        obtain ⟨front, hfront⟩ := hsuffix
        rw [← hfront, List.getLast?_append, hlast]
        rfl

/-- Bytes of a character that are followed by an ASCII byte end before it. -/
theorem tails_concat (code taken : Nat) (low high : UInt8) (owed : Nat) (bs : Bytes) (hlow : 0x80 ≤ low.toNat) :
    match tails code taken low high owed bs with
    | .whole c => owed ≤ bs.length ∧ tails code taken low high owed (bs ++ [a]) = .whole c
    | .broken n => n ≤ taken + bs.length ∧ tails code taken low high owed (bs ++ [a]) = .broken n
    | .cut n => n ≤ taken + bs.length ∧ tails code taken low high owed (bs ++ [a]) = .broken n := by
  induction owed generalizing code taken low high bs with
  | zero => exact ⟨Nat.zero_le _, rfl⟩
  | succ owed ih =>
    have hout : ¬low ≤ a := fun hle => by
      have := UInt8.le_iff_toNat_le.mp hle
      have := UInt8.lt_iff_toNat_lt.mp ha
      simp only [UInt8.reduceToNat] at this
      omega
    cases bs with
    | nil => exact ⟨Nat.le_refl _, by simp [tails, hout]⟩
    | cons b rest =>
      have hrest := ih (code * 64 + (b &&& 0x3F).toNat) (taken + 1) 0x80 0xBF rest (Nat.le_refl _)
      rw [tails, List.cons_append, tails, List.length_cons]
      by_cases hrange : (decide (low ≤ b) && decide (b ≤ high)) = true
      · rw [if_pos hrange, if_pos hrange]
        split at hrest
        · exact ⟨Nat.succ_le_succ hrest.1, hrest.2⟩
        · exact ⟨by omega, hrest.2⟩
        · exact ⟨by omega, hrest.2⟩
      · rw [if_neg hrange, if_neg hrange]
        exact ⟨Nat.le_add_right _ _, rfl⟩

/-- A byte at the end that is a character of its own does not change a step before it. -/
theorem scan_concat (b : UInt8) (rest : Bytes) : (scan b (rest ++ [a])).shown = (scan b rest).shown ∧
    (scan b (rest ++ [a])).length = (scan b rest).length ∧ (scan b rest).length - 1 ≤ rest.length := by
  unfold scan
  split
  · exact ⟨rfl, rfl, Nat.zero_le _⟩
  rcases hlead : Lead.of? b with _ | lead
  · exact ⟨rfl, rfl, Nat.zero_le _⟩
  have htails := tails_concat ha lead.payload 0 lead.low lead.high lead.tails rest (Lead.long hlead).low
  dsimp only
  cases hscan : tails lead.payload 0 lead.low lead.high lead.tails rest with
  | whole | broken | cut =>
    rw [hscan] at htails
    obtain ⟨hlength, hmore⟩ := htails
    rw [hmore]
    refine ⟨rfl, rfl, ?_⟩
    simp only [Scan.length]
    omega

/-- An ASCII byte at the end is shown as its character. -/
theorem lenientChars_concat {fuel : Nat} {seen : List Char} {bs : Bytes} (hfuel : bs.length ≤ fuel) :
    lenientChars (fuel + 1) seen (bs ++ [a]) = lenientChars fuel seen bs ++ [Char.ofNat a.toNat] := by
  induction fuel generalizing seen bs with
  | zero =>
    obtain rfl := List.eq_nil_of_length_eq_zero (Nat.le_zero.mp hfuel)
    simp [lenientChars, scan, ha]
  | succ fuel ih =>
    cases bs with
    | nil => simp [lenientChars, scan, ha]
    | cons b rest =>
      obtain ⟨hshown, hlength, hle⟩ := scan_concat ha b rest
      rw [List.cons_append, lenientChars_cons, lenientChars_cons, hshown, hlength, List.drop_append_of_le_length hle]
      refine ih ?_
      rw [List.length_drop]
      exact Nat.le_trans (Nat.sub_le _ _) (Nat.le_of_succ_le_succ hfuel)

/-- A text of bytes and an ASCII byte more is one character longer. -/
theorem decodeLenient_concat (bs : Bytes) : decodeLenient (bs ++ [a]) = (decodeLenient bs).push (Char.ofNat a.toNat) := by
  unfold decodeLenient
  rw [List.length_append, List.length_singleton, lenientChars_concat ha (Nat.le_refl _), String.ofList_append]
  rfl

end

end Utf8

/-- The bytes of a line without one carriage return at their end. -/
def withoutReturn (line : Bytes) : Bytes := if line.getLast? = some 13 then line.dropLast else line

/-- A carriage return at the end of a line can be dropped before it is decoded. -/
theorem endedLine_eq (line : Bytes) : endedLine line = Utf8.decodeLenient (withoutReturn line) := by
  by_cases hlast : line.getLast? = some 13
  · obtain ⟨front, rfl⟩ := List.getLast?_eq_some_iff.mp hlast
    have hconcat : (Utf8.decodeLenient (front ++ [13])).toList = (Utf8.decodeLenient front).toList ++ ['\r'] := by
      rw [Utf8.decodeLenient_concat (by decide) front, String.toList_push]
      rfl
    rw [endedLine, withoutReturn, if_pos hlast, hconcat, List.getLast?_concat, if_pos (beq_self_eq_true _),
      List.dropLast_concat, List.dropLast_concat, String.ofList_toList]
  · rw [endedLine, withoutReturn, if_neg hlast]
    refine if_neg fun hreturn => hlast ?_
    have hreturn : (Utf8.decodeLenient line).toList.getLast? = some '\r' := by simpa using hreturn
    rw [Utf8.decodeLenient, String.toList_ofList] at hreturn
    refine Utf8.getLast?_of_lenientChars (a := 13) (by decide) (by decide) (Nat.le_refl _) (fun hnil => ?_) hreturn
    rw [hnil] at hreturn
    nomatch hreturn

/-- Bytes without a newline show a text without one. -/
theorem newline_not_mem_decodeLenient {bs : Bytes} (h : 10 ∉ bs) : '\n' ∉ (Utf8.decodeLenient bs).toList := by
  rw [Utf8.decodeLenient, String.toList_ofList]
  intro hmem
  obtain hmem | hmem := Utf8.mem_of_mem_lenientChars (a := 10) (by decide) (by decide) hmem
  · exact List.not_mem_nil hmem
  · exact h hmem

/-! ## What a step looks at -/

/-- A step that is done with something else is done. -/
theorem Step.map_eq_done {α β : Type} {f : α → β} {step : Step α} {b : β} (h : step.map f = .done b) :
    ∃ a, step = .done a ∧ b = f a := by
  cases step with
  | done a =>
    cases h
    exact ⟨a, rfl, rfl⟩
  | blocked | more | failed => nomatch h

namespace LineReader

variable {σ : Type} {fetch : Nat → σ → Fetch × σ} {r : LineReader} {s : σ}

/-- A read of a piece looks at nothing: it may take bytes that were looked at. -/
theorem upTo_begun (count : Nat) : ∃ n, (upTo fetch count r s).2.1.begun = r.begun.drop n := by
  unfold upTo
  split
  · exact ⟨count, List.reverse_reverse _⟩
  split
  · exact ⟨0, rfl⟩
  split <;> exact ⟨0, rfl⟩

/-- A read to the end that completes takes all that was looked at. -/
theorem toEnd_begun {data : Bytes} (h : (toEnd fetch r s).1 = .done data) : (toEnd fetch r s).2.1.begun = [] := by
  unfold toEnd at h ⊢
  split
  · rename_i hahead
    rw [if_pos hahead] at h
    split
    · rename_i hfetch
      rw [hfetch] at h
      nomatch h
    · rename_i hfetch
      rw [hfetch] at h
      nomatch h
    · rename_i data s' hfetch
      rw [hfetch] at h
      dsimp only at h
      split at h
      · rename_i hdata
        rw [if_pos hdata]
        rfl
      · nomatch h
  · rename_i hahead
    rw [if_neg hahead] at h
    nomatch h

/-- There is no line when nothing is there and the supply has ended. -/
theorem line_none {s' : σ} (hheld : r.held = []) (hfetch : fetch fetchSize s = (.bytes [], s')) :
    (line fetch r s).1 = .done none := by
  obtain ⟨hstarted, hahead⟩ := List.append_eq_nil_iff.mp hheld
  simp [line, hfetch, hahead, List.reverse_eq_nil_iff.mp hstarted]

end LineReader

namespace Port

variable {start p p' : Port}

/-- A line is cut off what is unread. -/
theorem line_cuts (who : TaskId) (p : Port) :
    (p.line who).1.Cuts p.Complete p.begun (p.line who).2.begun p.unread (p.line who).2.unread := by
  cases p with
  | channel c =>
    refine LineReader.line_cuts (r := c.reader) (BytePipe.supplies who) (fun {p'} hfetch => ?_) fun {p'} hfetch => ?_
    · rcases c.pipe.fetch_cases who (show 0 < fetchSize by decide) with ⟨h, -⟩ | ⟨-, -, h⟩ | ⟨data, _, hne, h⟩
      · exact h
      · rw [h] at hfetch
        nomatch hfetch
      · rw [h] at hfetch
        cases hfetch
        exact absurd rfl hne
    · rcases c.pipe.fetch_cases who (show 0 < fetchSize by decide) with ⟨-, h⟩ | ⟨hnil, hne, -⟩ | ⟨data, _, -, h⟩
      · rw [h] at hfetch
        nomatch hfetch
      · exact ⟨hnil, hne⟩
      · rw [h] at hfetch
        nomatch hfetch
  | file files h =>
    refine LineReader.line_cuts (r := h.reader) (OpenFile.supplies files) (fun {h'} hfetch => ?_) fun {h'} hfetch => ?_
    · unfold World.fetchFile at hfetch
      split at hfetch
      · rename_i content hcontent
        exact ⟨content, hcontent⟩
      · nomatch hfetch
    · unfold World.fetchFile at hfetch
      split at hfetch <;> nomatch hfetch

/-- There is no line exactly when no byte is left and none will come. -/
theorem line_none_iff (who : TaskId) (p : Port) : (p.line who).1 = .done none ↔ p.unread = [] ∧ p.Complete := by
  constructor
  · intro hnone
    have hcuts := p.line_cuts who
    rw [hnone] at hcuts
    exact ⟨hcuts.1, hcuts.2.2⟩
  · rintro ⟨hunread, hcomplete⟩
    cases p with
    | channel c =>
      obtain ⟨hheld, hcoming⟩ := List.append_eq_nil_iff.mp hunread
      rcases c.pipe.fetch_cases who (show 0 < fetchSize by decide) with ⟨-, h⟩ | ⟨-, hne, -⟩ | ⟨data, buffer, hne, h⟩
      · exact LineReader.line_none hheld h
      · exact absurd hcomplete hne
      · obtain ⟨hdata, -⟩ := (BytePipe.supplies who).bytes (by decide) h
        rw [hcoming] at hdata
        exact absurd (List.append_eq_nil_iff.mp hdata.symm).1 hne
    | file files h =>
      obtain ⟨hheld, hcoming⟩ := List.append_eq_nil_iff.mp hunread
      obtain ⟨content, hcontent⟩ := hcomplete
      have hrest : content.drop h.offset = [] := by simpa [OpenFile.coming, hcontent] using hcoming
      have hfetch : World.fetchFile files fetchSize h = (.bytes [], h) := by simp [World.fetchFile, hcontent, hrest]
      exact LineReader.line_none hheld hfetch

/-- What others do leaves the bytes that were looked at. -/
theorem Gets.begun_eq {data : Bytes} (h : p.Gets data p') : p'.begun = p.begun := by
  cases h with
  | write h | refused h =>
    obtain rfl := congrArg Prod.snd h
    rfl
  | share | dropOutlet | put | recv | grow => rfl

/-- What a line begins with holds no newline afterwards if it held none. -/
theorem line_begun (who : TaskId) (hbegun : 10 ∉ p.begun) : 10 ∉ (p.line who).2.begun := by
  have hcuts := p.line_cuts who
  have hlooks (h : LooksAt p.begun (p.line who).2.begun) : 10 ∉ (p.line who).2.begun := by
    obtain ⟨front, hfront, hbegun'⟩ := h
    rw [hbegun']
    exact List.not_mem_append hbegun hfront
  rcases hstep : (p.line who).1 with _ | _ | (_ | text) | cause <;> rw [hstep] at hcuts
  · exact hcuts.2.1 ▸ hbegun
  · exact hlooks hcuts.2
  · exact begun_of_unread hcuts.2.1 ▸ List.not_mem_nil
  · exact hcuts.1 ▸ List.not_mem_nil
  · exact hlooks hcuts.2

/-- A read up to some bytes takes them from what was begun first. -/
theorem upTo_begun (who : TaskId) (count : Nat) (p : Port) : ∃ n, (p.upTo who count).2.begun = p.begun.drop n := by
  cases p with
  | channel c => exact LineReader.upTo_begun count
  | file files h => exact LineReader.upTo_begun count

/-- A read to the end leaves nothing begun. -/
theorem toEnd_begun {who : TaskId} {data : Bytes} (h : (p.toEnd who).1 = .done data) : (p.toEnd who).2.begun = [] := by
  cases p with
  | channel c => exact LineReader.toEnd_begun h
  | file files handle => exact LineReader.toEnd_begun h

/-- A step of a read that is none to the end looks at no newline. -/
theorem step_begun (who : TaskId) {read : Read} (hread : read ≠ .toEnd) (hbegun : 10 ∉ p.begun) :
    10 ∉ (p.step who read).2.begun := by
  cases read with
  | line => exact line_begun who hbegun
  | toEnd => exact absurd rfl hread
  | upTo count =>
    obtain ⟨n, hn⟩ := upTo_begun who count p
    change 10 ∉ (p.upTo who count).2.begun
    rw [hn]
    exact fun hmem => hbegun (List.mem_of_mem_drop hmem)

/-! ## Calls -/

/-- What happens at a port whose reads are called one after the other: what a course says, and reads that end without an
answer, given up or failed. -/
inductive CallEvent
  | seen (e : PortEvent)
  | dropped (read : Read)

/-- What a course says of it. -/
def CallEvent.port? : CallEvent → Option PortEvent
  | .seen e => some e
  | .dropped _ => none

/-- Reads called one after the other, each of which takes some steps and then is completed or dropped, while bytes
arrive. The read is the one that is under way. -/
inductive Calls (start : Port) : List CallEvent → Option Read → Port → Prop
  | start : Calls start [] none start
  | arrived {es read p p' data} (h : Calls start es read p) (hgets : p.Gets data p') :
      Calls start (es ++ [.seen (.arrived data)]) read p'
  | call {es p} (read : Read) (h : Calls start es none p) : Calls start es (some read) p
  | on {es read p} (who : TaskId) (h : Calls start es (some read) p) (hdone : (p.step who read).1.isDone = false) :
      Calls start es (some read) (p.step who read).2
  | done {es read p p' c} (who : TaskId) (h : Calls start es (some read) p) (hstep : p.step who read = (.done c, p')) :
      Calls start (es ++ [.seen (.completed c)]) none p'
  | dropped {es read p} (h : Calls start es (some read) p) : Calls start (es ++ [.dropped read]) none p

/-- They are a course. -/
theorem Calls.course {es : List CallEvent} {read : Option Read} (h : Calls start es read p) :
    Course start (es.filterMap CallEvent.port?) p := by
  induction h with
  | start => exact .start
  | arrived _ hgets ih =>
    rw [List.filterMap_append]
    exact ih.arrived hgets
  | call _ _ ih => exact ih
  | on who _ hdone ih => exact ih.on who _ hdone
  | done who _ hstep ih =>
    rw [List.filterMap_append]
    exact ih.done who _ hstep
  | dropped _ ih =>
    rw [List.filterMap_append]
    exact (List.append_nil _).symm ▸ ih

/-- The answer of a read that takes all that was looked at. -/
def CallEvent.Clears : CallEvent → Prop
  | .seen (.completed (.line _)) | .seen (.completed (.toEnd _)) => True
  | .seen (.completed (.upTo ..)) | .seen (.arrived _) | .dropped _ => False

/-- After each read to the end that was dropped, a line was read or another read came to the end. -/
def Cleared (es : List CallEvent) : Prop := ∀ front rest, es = front ++ .dropped .toEnd :: rest → ∃ e ∈ rest, e.Clears

/-- Then nothing that was looked at is left. -/
theorem step_clears {who : TaskId} {read : Read} {c : Completed} (h : p.step who read = (.done c, p'))
    (hclears : (CallEvent.seen (.completed c)).Clears) : p'.begun = [] := by
  obtain ⟨hdone, rfl⟩ := Prod.mk.inj h
  cases read with
  | line =>
    obtain ⟨text, hdone, -⟩ := Step.map_eq_done hdone
    have hcuts := p.line_cuts who
    rw [hdone] at hcuts
    cases text with
    | none => exact begun_of_unread hcuts.2.1
    | some text => exact hcuts.1
  | toEnd =>
    obtain ⟨data, hdone, -⟩ := Step.map_eq_done hdone
    exact toEnd_begun hdone
  | upTo count =>
    obtain ⟨data, -, rfl⟩ := Step.map_eq_done hdone
    exact hclears.elim

/-- A cleared record stays so without an event that clears. -/
theorem Cleared.of_snoc {es : List CallEvent} {e : CallEvent} (h : Cleared (es ++ [e])) (he : ¬e.Clears) : Cleared es := by
  rintro front rest rfl
  obtain ⟨e', hmem, hclears⟩ := h front (rest ++ [e]) (by simp)
  obtain hmem | hmem := List.mem_append.mp hmem
  · exact ⟨e', hmem, hclears⟩
  · exact absurd (List.mem_singleton.mp hmem ▸ hclears) he

/-- A read to the end that was dropped clears nothing. -/
theorem not_cleared_dropped (es : List CallEvent) : ¬Cleared (es ++ [.dropped .toEnd]) := fun h => by
  obtain ⟨_, hmem, -⟩ := h es [] rfl
  exact List.not_mem_nil hmem

/-- What was looked at holds no newline, unless it is for a read to the end or one of them left it. -/
theorem Calls.begun {es : List CallEvent} {read : Option Read} (h : Calls start es read p) (hstart : 10 ∉ start.begun)
    (hread : read ≠ some .toEnd) (hcleared : Cleared es) : 10 ∉ p.begun := by
  induction h with
  | start => exact hstart
  | arrived _ hgets ih =>
    rw [hgets.begun_eq]
    exact ih hread (hcleared.of_snoc nofun)
  | call read _ ih => exact ih nofun hcleared
  | on who _ _ ih => exact step_begun who (fun h => hread (congrArg some h)) (ih hread hcleared)
  | @done es read p p' c who h hstep ih =>
    by_cases hclears : (CallEvent.seen (.completed c)).Clears
    · exact step_clears hstep hclears ▸ List.not_mem_nil
    · have hread : read ≠ .toEnd := by
        rintro rfl
        obtain ⟨data, -, rfl⟩ := Step.map_eq_done (congrArg Prod.fst hstep)
        exact hclears trivial
      have hbegun := ih (fun h => hread (Option.some.inj h)) (hcleared.of_snoc hclears)
      obtain rfl : (p.step who read).2 = p' := congrArg Prod.snd hstep
      exact step_begun who hread hbegun
  | @dropped es read p h ih =>
    refine ih (fun hread => ?_) (hcleared.of_snoc nofun)
    cases hread
    exact not_cleared_dropped es hcleared

/-! ## Main result -/

/-- What is unread up to the first newline after the bytes that were looked at, or all of it at the end, as text. -/
inductive LineAfter (looked : Bytes) (p : Port) (text : String) (p' : Port) : Prop
  | ended {front : Bytes} (hfront : 10 ∉ front) (hunread : p.unread = looked ++ front ++ 10 :: p'.unread)
      (htext : text = Utf8.decodeLenient (withoutReturn (looked ++ front))) : LineAfter looked p text p'
  | last {front : Bytes} (hfront : 10 ∉ front) (hunread : p.unread = looked ++ front) (hne : p.unread ≠ [])
      (hcomplete : p.Complete)
      (hrest : p'.unread = []) (htext : text = Utf8.decodeLenient p.unread) : LineAfter looked p text p'

/-- It is a line of what is unread if there is no newline among the bytes that were looked at. -/
theorem LineAfter.line {looked : Bytes} {text : String} (h : p.LineAfter looked text p') (hlooked : 10 ∉ looked) :
    p.LineAfter [] text p' := by
  cases h with
  | ended hfront hunread htext => exact .ended (List.not_mem_append hlooked hfront) hunread htext
  | last hfront hunread hne hcomplete hrest htext =>
    exact .last (List.not_mem_append hlooked hfront) hunread hne hcomplete hrest htext

/-- A line holds no newline. -/
theorem LineAfter.newline_not_mem {text : String} (h : p.LineAfter [] text p') : '\n' ∉ text.toList := by
  cases h with
  | @ended front hfront _ htext =>
    rw [htext]
    refine newline_not_mem_decodeLenient fun hmem => hfront ?_
    unfold withoutReturn at hmem
    split at hmem
    · exact (List.dropLast_sublist front).subset hmem
    · exact hmem
  | last hfront hunread _ _ _ htext =>
    rw [htext]
    exact newline_not_mem_decodeLenient (hunread ▸ hfront)

/-- A line that was read is what was begun and what followed it. -/
theorem line_after {who : TaskId} {text : String} (h : p.line who = (.done (some text), p')) :
    p.LineAfter p.begun text p' := by
  have hcuts := p.line_cuts who
  rw [h] at hcuts
  obtain ⟨-, raw, hunread, front, hfront, ⟨rfl, htext⟩ | ⟨rfl, hne, hrest, hcomplete, htext⟩⟩ := hcuts
  · exact .ended hfront (by simpa using hunread) (htext.trans (endedLine_eq _))
  · rw [hrest, List.append_nil] at hunread
    exact .last hfront hunread (hunread ▸ hne) hcomplete hrest (hunread ▸ htext)

/-- Whatever reads were called at a port that held nothing at first, completed or dropped, and whatever arrived: what
they took and what is unread is what was there at first and what arrived, in order. A read of a line finds none exactly
when no byte is left and none will come, and else returns what is unread up to the first newline after the bytes that
were looked at. That is one line, without a newline in it, unless a read to the end was dropped and nothing cleared what
it had looked at. -/
theorem line_read {es : List CallEvent} (hstart : start.begun = []) (h : Calls start es (some .line) p) (who : TaskId) :
    (∃ taken, Queues start.unread (es.filterMap CallEvent.port?) taken p.unread ∧
        taken.flatten ++ p.unread = start.unread ++ PortEvent.arrivals (es.filterMap CallEvent.port?)) ∧
      ((p.line who).1 = .done none ↔ p.unread = [] ∧ p.Complete) ∧
      ∀ text p', p.line who = (.done (some text), p') →
        p.LineAfter p.begun text p' ∧ (Cleared es → p.LineAfter [] text p' ∧ '\n' ∉ text.toList) := by
  refine ⟨(lossless h.course).1, line_none_iff who p, fun text p' hline => ⟨line_after hline, fun hcleared => ?_⟩⟩
  have hbegun := h.begun (hstart ▸ List.not_mem_nil) nofun hcleared
  have hisLine := (line_after hline).line hbegun
  exact ⟨hisLine, hisLine.newline_not_mem⟩

/-- A read of a line is dropped before its newline comes, and called again. -/
theorem line_read_again : ∃ p p', Calls (.channel (.create 64 4))
      [.seen (.arrived [97]), .dropped .line, .seen (.arrived [98, 13, 10, 99])] (some .line) p ∧
    p.line 1 = (.done (some (Utf8.decodeLenient [97, 98])), p') ∧ p.LineAfter [] (Utf8.decodeLenient [97, 98]) p' := by
  have hfirst := (Calls.start.arrived (@Gets.write (.create 64 4) _ 0 [97] 1 rfl)).call .line
  have hdropped := ((hfirst.on 1 rfl).on 1 rfl).dropped
  have hagain := ((hdropped.arrived (@Gets.write _ _ 0 [98, 13, 10, 99] 4 rfl)).call .line).on 1 rfl
  have hcleared : Cleared [.seen (.arrived [97]), .dropped .line, .seen (.arrived [98, 13, 10, 99])] := by
    rintro front rest hes
    have hmem : CallEvent.dropped .toEnd ∈ [CallEvent.seen (.arrived [97]), .dropped .line,
      .seen (.arrived [98, 13, 10, 99])] := by
      rw [hes]
      exact List.mem_append_right _ List.mem_cons_self
    simp at hmem
  obtain ⟨-, -, hlines⟩ := line_read rfl hagain 1
  exact ⟨_, _, hagain, rfl, ((hlines _ _ rfl).2 hcleared).1⟩

/-- A read to the end is dropped when it has looked at a whole line. The next read of a line returns that line and the
one after it. -/
theorem line_read_entangled : ∃ p p', Calls (.channel (.create 64 4))
      [.seen (.arrived [97, 10]), .dropped .toEnd, .seen (.arrived [98, 10])] (some .line) p ∧
    p.unread = [97, 10, 98, 10] ∧ p.line 1 = (.done (some "a\nb"), p') ∧ p'.unread = [] := by
  have hfirst := (Calls.start.arrived (@Gets.write (.create 64 4) _ 0 [97, 10] 2 rfl)).call .toEnd
  have hdropped := ((hfirst.on 1 rfl).on 1 rfl).dropped
  have hagain := ((hdropped.arrived (@Gets.write _ _ 0 [98, 10] 2 rfl)).call .line).on 1 rfl
  exact ⟨_, _, hagain, rfl, rfl, rfl⟩

end Port

end DualShell
