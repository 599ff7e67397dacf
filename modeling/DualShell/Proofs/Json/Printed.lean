import Mathlib.Data.List.Basic
import DualShell.Json.Reader
import DualShell.Proofs.Text.Encode

/-!
# Reading what was printed

A reader takes some bytes if it reads them and nothing after them, whatever comes after them (`Json.Takes`). A string is
taken from its printed form (`Json.takes_stringText`), and so is a document of strings, truth values, arrays and objects
(`Json.takes_value`). Documents that are printed line by line come back in order from the whole text
(`Json.readStream_printed`).
-/

namespace DualShell

namespace Json

open Utf8

/-! ## Taking bytes -/

/-- A reader goes on from where the one before it stopped. -/
theorem bind_of_ok {α β : Type} {p : Read α} {f : α → Read β} {c c' : Cursor} {a : α} (h : p c = .ok (a, c')) :
    (p >>= f) c = f a c' := by
  change (p c >>= fun r => f r.1 r.2) = _
  rw [h]
  rfl

/-- The reader takes exactly these bytes from the front of any text. -/
def Takes {α : Type} (p : Read α) (text : Bytes) (a : α) : Prop :=
  ∀ rest offset, p ⟨text ++ rest, offset⟩ = .ok (a, ⟨rest, offset + text.length⟩)

namespace Takes

variable {α β : Type} {p : Read α} {text text' : Bytes} {a : α} {b : β} {f : α → Read β}

theorem pure (a : α) : Takes (Pure.pure a) [] a := fun _ _ => rfl

/-- One reading after another takes one text after another. -/
theorem bind (h : Takes p text a) (h' : Takes (f a) text' b) : Takes (p >>= f) (text ++ text') b := by
  intro rest offset
  have hfirst := h (text' ++ rest) offset
  have hsecond := h' rest (offset + text.length)
  rw [← List.append_assoc] at hfirst
  rw [bind_of_ok hfirst, List.length_append, ← Nat.add_assoc]
  exact hsecond

/-- What is taken last yields another value in the end. -/
theorem map (h : Takes p text a) (g : α → β) : Takes (p >>= fun a => Pure.pure (g a)) text (g a) := by
  have hwhole := h.bind (f := fun a => Pure.pure (g a)) (pure (g a))
  rwa [List.append_nil] at hwhole

/-- A byte is looked at and taken. -/
theorem next {x : UInt8} {f : Option UInt8 → Read β} (h : Takes (f (some x)) text b) : Takes (next >>= f) (x :: text) b := by
  intro rest offset
  have hrest := h rest (offset + 1)
  rw [List.length_cons, Nat.add_comm text.length, ← Nat.add_assoc]
  exact hrest

/-- A byte is skipped. -/
theorem skip {x : UInt8} {f : Unit → Read β} (h : Takes (f ()) text b) : Takes (skip >>= f) (x :: text) b := by
  intro rest offset
  have hrest := h rest (offset + 1)
  rw [List.length_cons, Nat.add_comm text.length, ← Nat.add_assoc]
  exact hrest

/-- To look at a byte that is no blank takes nothing. -/
theorem peekSolid {x : UInt8} {f : Option UInt8 → Read β} (hx : isBlank x = false) (h : Takes (f (some x)) (x :: text) b) :
    Takes (peekSolid >>= f) (x :: text) b := by
  intro rest offset
  have hpeek : Json.peekSolid ⟨x :: text ++ rest, offset⟩ = .ok (some x, ⟨x :: text ++ rest, offset⟩) := by
    simp [Json.peekSolid, dropCounting, hx]
  rw [bind_of_ok hpeek]
  exact h rest offset

/-- Letters that are expected. -/
theorem word (bs : Bytes) : Takes (word bs) bs () := by
  induction bs with
  | nil => exact pure ()
  | cons x bs ih =>
    unfold Json.word
    refine next ?_
    simpa using ih

end Takes

/-! ## Strings -/

/-- A byte that stands for itself in a string. -/
def Plain (b : UInt8) : Prop := b ≠ 34 ∧ b ≠ 92 ∧ ¬b < 32

/-- A hexadecimal digit is read as the number that it was written for. -/
theorem hexValue?_hexDigit : ∀ n, n < 16 → hexValue? (UInt8.ofNat (hexDigit n).toNat) = some n := by decide

/-- A hexadecimal digit is a plain byte. -/
theorem hexDigit_ascii : ∀ n, n < 16 → (hexDigit n).toNat < 0x80 ∧ Plain (UInt8.ofNat (hexDigit n).toNat) := by
  unfold Plain
  decide

/-- The text of an escape of four digits, of which the first two are zero. -/
def fourDigits (n : Nat) : Bytes := [48, 48, UInt8.ofNat (hexDigit (n / 16)).toNat, UInt8.ofNat (hexDigit (n % 16)).toNat]

/-- Four digits are read as the number that they were written for. -/
theorem takes_hexFour {n : Nat} (hn : n < 256) : Takes hexFour (fourDigits n) n := by
  have hzero : hexValue? 48 = some 0 := by decide
  have hhigh := hexValue?_hexDigit (n / 16) (by omega)
  have hlow := hexValue?_hexDigit (n % 16) (by omega)
  have hnumber : ((0 * 16 + 0) * 16 + n / 16) * 16 + n % 16 = n := by omega
  intro rest offset
  simp only [hexFour, fourDigits, List.cons_append, hzero, hhigh, hlow, hnumber]
  rfl

/-- It is the character that has the number. -/
theorem takes_numericEscape {c : Char} (hc : c.toNat < 256) : Takes numericEscape (fourDigits c.toNat) c := by
  have hwhole : Takes numericEscape (fourDigits c.toNat ++ []) c := by
    unfold numericEscape
    refine (takes_hexFour hc).bind ?_
    have hlow : (decide (0xDC00 ≤ c.toNat) && decide (c.toNat ≤ 0xDFFF)) = false := by simp; omega
    have hplain : (decide (c.toNat < 0xD800) || decide (0xDBFF < c.toNat)) = true := by simp; omega
    rw [hlow, hplain, Char.ofNat_toNat]
    exact .pure c
  rwa [List.append_nil] at hwhole

/-- The letters that are escapes, each with the character it stands for. -/
def letters : List (UInt8 × Char) :=
  [(34, '"'), (92, '\\'), (110, '\n'), (114, '\r'), (116, '\t'), (98, '\x08'), (102, '\x0c')]

/-- An escape by a letter is read as the character that it was written for. -/
theorem takes_letter {x : UInt8} {c : Char} (h : (x, c) ∈ letters) :
    encode (escape c) = [92, x] ∧ Takes escapeBytes [x] (String.utf8EncodeChar c) := by
  simp only [letters, List.mem_cons, List.not_mem_nil, or_false, Prod.mk.injEq] at h
  rcases h with ⟨rfl, rfl⟩ | ⟨rfl, rfl⟩ | ⟨rfl, rfl⟩ | ⟨rfl, rfl⟩ | ⟨rfl, rfl⟩ | ⟨rfl, rfl⟩ | ⟨rfl, rfl⟩
  all_goals exact ⟨by decide +kernel, .next (.pure _)⟩

/-- The character is printed as an escape, which is read as its bytes. -/
def Escaped (c : Char) : Prop :=
  ∃ x more, encode (escape c) = 92 :: x :: more ∧ (∀ b ∈ more, Plain b) ∧
    Takes escapeBytes (x :: more) (String.utf8EncodeChar c)

/-- A character is printed as an escape or as its bytes. -/
theorem escape_spec (c : Char) : Escaped c ∨ encode (escape c) = String.utf8EncodeChar c ∧
    ∀ b ∈ String.utf8EncodeChar c, Plain b := by
  have hletter : ∀ x, (x, c) ∈ letters → Escaped c := by
    intro x h
    obtain ⟨hprinted, htakes⟩ := takes_letter h
    exact ⟨x, [], hprinted, List.forall_mem_nil _, htakes⟩
  by_cases hquote : c = '"'
  · exact .inl (hletter 34 (by simp [letters, hquote]))
  by_cases hslash : c = '\\'
  · exact .inl (hletter 92 (by simp [letters, hslash]))
  by_cases hnewline : c = '\n'
  · exact .inl (hletter 110 (by simp [letters, hnewline]))
  by_cases hreturn : c = '\r'
  · exact .inl (hletter 114 (by simp [letters, hreturn]))
  by_cases htab : c = '\t'
  · exact .inl (hletter 116 (by simp [letters, htab]))
  by_cases hback : c = '\x08'
  · exact .inl (hletter 98 (by simp [letters, hback]))
  by_cases hfeed : c = '\x0c'
  · exact .inl (hletter 102 (by simp [letters, hfeed]))
  have hescape : escape c = if c.toNat < 0x20 then
      String.ofList ['\\', 'u', '0', '0', hexDigit (c.toNat / 16), hexDigit (c.toNat % 16)] else c.toString := by
    simp [escape, hquote, hslash, hnewline, hreturn, htab, hback, hfeed]
  by_cases hcontrol : c.toNat < 0x20
  · have hhigh := hexDigit_ascii (c.toNat / 16) (by omega)
    have hlow := hexDigit_ascii (c.toNat % 16) (by omega)
    left
    refine ⟨117, fourDigits c.toNat, ?_, ?_, ?_⟩
    · have hfixed : String.utf8EncodeChar '\\' = [92] ∧ String.utf8EncodeChar 'u' = [117] ∧
        String.utf8EncodeChar '0' = [48] := by
        decide +kernel
      rw [hescape, if_pos hcontrol, encode_ofList]
      simp [hfixed, encodeChar_ascii hhigh.1, encodeChar_ascii hlow.1, fourDigits]
    · have hzero : Plain 48 := by
        unfold Plain
        decide
      intro b hb
      simp only [fourDigits, List.mem_cons, List.not_mem_nil, or_false] at hb
      rcases hb with rfl | rfl | rfl | rfl
      · exact hzero
      · exact hzero
      · exact hhigh.2
      · exact hlow.2
    · refine .next ?_
      exact (takes_numericEscape (by omega)).map String.utf8EncodeChar
  · right
    rw [hescape, if_neg hcontrol, encode_char]
    refine ⟨rfl, fun b hb => ?_⟩
    by_cases hascii : c.toNat < 0x80
    · rw [encodeChar_ascii hascii, List.mem_singleton] at hb
      have hb' : b.toNat = c.toNat := by rw [hb, toNat_ofNat (by omega)]
      have hne : ∀ d : Char, c ≠ d → c.toNat ≠ d.toNat := fun d hd heq => hd (Char.toNat_inj.1 heq)
      have hquote' := hne _ hquote
      have hslash' := hne _ hslash
      unfold Plain
      rw [ne_eq, ne_eq, ← UInt8.toNat_inj, ← UInt8.toNat_inj, UInt8.lt_iff_toNat_lt, hb']
      exact ⟨hquote', hslash', hcontrol⟩
    · have hlong := encodeChar_long (Nat.le_of_not_lt hascii) b hb
      unfold Plain
      rw [ne_eq, ne_eq, ← UInt8.toNat_inj, ← UInt8.toNat_inj, UInt8.lt_iff_toNat_lt]
      show b.toNat ≠ 34 ∧ b.toNat ≠ 92 ∧ ¬b.toNat < 32
      omega

/-- The text of a string between its quotes. -/
def inner (cs : List Char) : Bytes := cs.flatMap fun c => encode (escape c)

/-- A string is printed as the quoted bytes of its characters. -/
theorem encode_quote (s : String) : encode (quote s) = 34 :: (inner s.toList ++ [34]) := by
  have hfold : ∀ (cs : List Char) (out : String), encode (cs.foldl (fun out c => out ++ escape c) out) = encode out ++
    inner cs := by
    intro cs
    induction cs with
    | nil => intro out; simp [inner]
    | cons c cs ih =>
      intro out
      rw [List.foldl_cons, ih, encode_append, List.append_assoc]
      rfl
  have hmark : encode "\"" = [34] := by decide +kernel
  have hnone : encode "" = [] := rfl
  unfold quote
  rw [String.foldl_eq_foldl_toList, encode_append, encode_append, hfold, hmark, hnone]
  simp

/-- Plain bytes count one each for the length of a string. -/
theorem quotedLength_plain {bs : Bytes} (h : ∀ b ∈ bs, Plain b) (n : Nat) (rest : Bytes) :
    quotedLength n (bs ++ rest) = quotedLength (n + bs.length) rest := by
  induction bs generalizing n with
  | nil => rfl
  | cons b bs ih =>
    obtain ⟨hb, hbs⟩ := List.forall_mem_cons.1 h
    rw [List.cons_append, quotedLength, if_neg (by simpa using hb.1), ih hbs, List.length_cons, Nat.add_assoc,
      Nat.add_comm 1]
    rintro x more heq -
    exact absurd heq hb.2.1

/-- The closing quote is found after what was printed. -/
theorem quotedLength_inner (cs : List Char) (n : Nat) (rest : Bytes) :
    quotedLength n (inner cs ++ 34 :: rest) = n + (inner cs).length := by
  induction cs generalizing n with
  | nil => simp [inner, quotedLength]
  | cons c cs ih =>
    have hsplit : inner (c :: cs) = encode (escape c) ++ inner cs := rfl
    rw [hsplit, List.append_assoc]
    rcases escape_spec c with ⟨x, more, hprinted, hplain, -⟩ | ⟨hprinted, hplain⟩
    · rw [hprinted, List.cons_append, List.cons_append, quotedLength, quotedLength_plain hplain, ih]
      simp only [List.length_append, List.length_cons]
      omega
    · rw [hprinted, quotedLength_plain hplain, ih, List.length_append, Nat.add_assoc]

/-- Plain bytes of a string are read as themselves. -/
theorem takes_plain {bs text : Bytes} {fuel : Nat} {seen out : Bytes} (h : ∀ b ∈ bs, Plain b)
    (hrest : Takes (stringBytes fuel (bs.reverse ++ seen)) text out) :
    Takes (stringBytes (fuel + bs.length) seen) (bs ++ text) out := by
  induction bs generalizing seen with
  | nil => exact hrest
  | cons b bs ih =>
    obtain ⟨⟨hquote, hslash, hcontrol⟩, hbs⟩ := List.forall_mem_cons.1 h
    rw [List.reverse_cons, List.append_assoc] at hrest
    rw [List.length_cons, ← Nat.add_assoc, stringBytes]
    refine .next ?_
    simpa [hquote, hslash, hcontrol] using ih hbs hrest

/-- What was printed for characters reads as their bytes, up to the closing quote. -/
theorem takes_inner (cs : List Char) {fuel : Nat} (hfuel : (inner cs).length < fuel) (seen : Bytes) :
    Takes (stringBytes fuel seen) (inner cs ++ [34]) (seen.reverse ++ cs.flatMap String.utf8EncodeChar) := by
  induction cs generalizing fuel seen with
  | nil =>
    obtain ⟨fuel, rfl⟩ := Nat.exists_eq_add_of_lt hfuel
    rw [List.flatMap_nil, List.append_nil]
    exact .next (.pure _)
  | cons c cs ih =>
    have hsplit : inner (c :: cs) = encode (escape c) ++ inner cs := rfl
    rw [hsplit, List.length_append] at hfuel
    rw [hsplit, List.append_assoc, List.flatMap_cons, ← List.append_assoc seen.reverse]
    rcases escape_spec c with ⟨x, more, hprinted, -, htakes⟩ | ⟨hprinted, hplain⟩
    · rw [hprinted, List.length_cons] at hfuel
      obtain ⟨fuel, rfl⟩ : ∃ n, fuel = n + 1 := ⟨fuel - 1, by omega⟩
      have hmore : (inner cs).length < fuel := by omega
      have hrest := ih hmore ((String.utf8EncodeChar c).reverse ++ seen)
      rw [List.reverse_append, List.reverse_reverse] at hrest
      rw [hprinted, stringBytes]
      refine .next ?_
      exact htakes.bind hrest
    · rw [hprinted] at hfuel
      obtain ⟨fuel, rfl⟩ : ∃ n, fuel = n + (String.utf8EncodeChar c).length := ⟨_, (Nat.sub_add_cancel (by omega)).symm⟩
      have hmore : (inner cs).length < fuel := by omega
      have hrest := ih hmore ((String.utf8EncodeChar c).reverse ++ seen)
      rw [List.reverse_append, List.reverse_reverse] at hrest
      rw [hprinted]
      exact takes_plain hplain hrest

/-- A string is read from its printed form, the first quote of which has been read. -/
theorem takes_stringText (s : String) : Takes stringText (inner s.toList ++ [34]) s := by
  intro rest offset
  have hlength : quotedLength 0 (inner s.toList ++ [34] ++ rest) = (inner s.toList).length := by
    rw [List.append_assoc, List.singleton_append, quotedLength_inner, Nat.zero_add]
  have htakes := takes_inner s.toList (Nat.lt_succ_self _) [] rest offset
  have hdecode : decode ([].reverse ++ s.toList.flatMap String.utf8EncodeChar) = .ok s := by
    rw [List.reverse_nil, List.nil_append, ← encode_eq, decode_encode]
  have hget : (get : Read Cursor) ⟨inner s.toList ++ [34] ++ rest, offset⟩ =
      .ok (⟨inner s.toList ++ [34] ++ rest, offset⟩, ⟨inner s.toList ++ [34] ++ rest, offset⟩) := rfl
  rw [← hlength] at htakes
  unfold stringText
  rw [bind_of_ok hget, bind_of_ok htakes, hdecode]
  rfl

/-! ## Documents -/

/-- A document of strings and truth values, in which arrays and objects are nested at most this deep. -/
inductive Within : Nat → Json → Prop
  | string (d : Nat) (s : String) : Within d (.string s)
  | bool (d : Nat) (b : Bool) : Within d (.bool b)
  | array {d : Nat} {items : List Json} : (∀ j ∈ items, Within d j) → Within (d + 1) (.array items)
  | object {d : Nat} {members : List (String × Json)} : (∀ m ∈ members, Within d m.2) → Within (d + 1) (.object members)

/-- Texts with a comma before each, the first one apart if so told. -/
def listed : (isFirst : Bool) → List Bytes → Bytes
  | _, [] => []
  | true, t :: ts => t ++ listed false ts
  | false, t :: ts => 44 :: (t ++ listed false ts)

/-- Texts that are joined by commas are encoded as the list of what they are encoded to. -/
theorem encode_intercalate (ss : List String) : encode (",".intercalate ss) = listed true (ss.map encode) := by
  have hcomma : encode "," = [44] := by decide +kernel
  have hmore : ∀ (s : String) (ss : List String),
      encode (",".intercalate (s :: ss)) = encode s ++ listed false (ss.map encode) := by
    intro s ss
    induction ss generalizing s with
    | nil => simp [listed]
    | cons t ss ih => rw [String.intercalate_cons_cons, encode_append, encode_append, ih, hcomma, List.append_assoc]; rfl
  cases ss with
  | nil => rfl
  | cons s ss => exact hmore s ss

theorem renderItems_eq (js : List Json) : renderItems js = js.map render := by
  induction js with
  | nil => rfl
  | cons j js ih => rw [renderItems, ih, List.map_cons]

theorem renderMembers_eq (ms : List (String × Json)) :
    renderMembers ms = ms.map fun m => quote m.1 ++ ":" ++ render m.2 := by
  induction ms with
  | nil => rfl
  | cons m ms ih => rw [renderMembers, ih, List.map_cons]

/-- The bytes of a document. -/
def bytes (j : Json) : Bytes := encode j.render

/-- The bytes of a member of an object. -/
def memberBytes (m : String × Json) : Bytes := 34 :: (inner m.1.toList ++ [34]) ++ 58 :: m.2.bytes

theorem bytes_string (s : String) : (string s).bytes = 34 :: (inner s.toList ++ [34]) := encode_quote s

theorem bytes_true : (bool true).bytes = [116, 114, 117, 101] := by decide +kernel

theorem bytes_false : (bool false).bytes = [102, 97, 108, 115, 101] := by decide +kernel

theorem bytes_array (js : List Json) : (array js).bytes = 91 :: (listed true (js.map bytes) ++ [93]) := by
  have hopen : encode "[" = [91] := by decide +kernel
  have hclose : encode "]" = [93] := by decide +kernel
  rw [bytes, render, encode_append, encode_append, encode_intercalate, renderItems_eq, List.map_map, hopen, hclose]
  rfl

theorem bytes_object (ms : List (String × Json)) :
    (object ms).bytes = 123 :: (listed true (ms.map memberBytes) ++ [125]) := by
  have hopen : encode "\x7b" = [123] := by decide +kernel
  have hclose : encode "\x7d" = [125] := by decide +kernel
  have hcolon : encode ":" = [58] := by decide +kernel
  have hmember : ∀ m : String × Json, encode (quote m.1 ++ ":" ++ render m.2) = memberBytes m := by
    intro m
    rw [encode_append, encode_append, encode_quote, hcolon, List.append_assoc]
    rfl
  rw [bytes, render, encode_append, encode_append, encode_intercalate, renderMembers_eq, List.map_map, hopen, hclose]
  have hmap : encode ∘ (fun m : String × Json => quote m.1 ++ ":" ++ render m.2) = memberBytes := funext hmember
  rw [hmap]
  rfl

/-- The bytes that a document of these kinds starts with. -/
def Opening (b : UInt8) : Prop := b = 34 ∨ b = 91 ∨ b = 102 ∨ b = 116 ∨ b = 123

theorem Opening.solid {b : UInt8} (h : Opening b) : isBlank b = false ∧ b ≠ 93 := by
  rcases h with rfl | rfl | rfl | rfl | rfl <;> decide

/-- A document is printed with an opening byte at its start. -/
theorem Within.opening {d : Nat} {j : Json} (h : Within d j) : ∃ b text, j.bytes = b :: text ∧ Opening b := by
  cases h with
  | string d s => exact ⟨_, _, bytes_string s, .inl rfl⟩
  | bool d b =>
    cases b with
    | true => exact ⟨_, _, bytes_true, by simp [Opening]⟩
    | false => exact ⟨_, _, bytes_false, by simp [Opening]⟩
  | array hitems => exact ⟨_, _, bytes_array _, by simp [Opening]⟩
  | object hmembers => exact ⟨_, _, bytes_object _, by simp [Opening]⟩

/-- The document is read from its bytes, where this many arrays and objects may be opened. -/
def Readable (d : Nat) (j : Json) : Prop := ∀ fuel, j.bytes.length ≤ fuel → Takes (value fuel d) j.bytes j

section Listed

variable {d fuel : Nat}

/-- A reader of a list takes all items and the mark at the end, if it takes this mark, and the next item with a comma or
as the first. -/
theorem takes_listed {α : Type} {l : Nat → Bool → List α → Read (List α)} {p : Nat → Read α} {print : α → Bytes}
    {close : UInt8} {as : List α} (hclose : ∀ fuel isFirst seen, Takes (l (fuel + 1) isFirst seen) [close] seen.reverse)
    (hfirst : ∀ a ∈ as, ∀ fuel seen text out, Takes (do let a ← p fuel; l fuel false (a :: seen)) (print a ++ text) out →
      Takes (l (fuel + 1) true seen) (print a ++ text) out)
    (hnext : ∀ a ∈ as, ∀ fuel seen text out, Takes (do let a ← p fuel; l fuel false (a :: seen)) (print a ++ text) out →
      Takes (l (fuel + 1) false seen) (44 :: (print a ++ text)) out)
    (hone : ∀ a ∈ as, ∀ fuel, (print a).length ≤ fuel → Takes (p fuel) (print a) a) (hpos : ∀ a ∈ as, 0 < (print a).length)
    (isFirst : Bool) (seen : List α) (hfuel : (listed isFirst (as.map print)).length < fuel) :
    Takes (l fuel isFirst seen) (listed isFirst (as.map print) ++ [close]) (seen.reverse ++ as) := by
  induction as generalizing isFirst seen fuel with
  | nil =>
    obtain ⟨fuel, rfl⟩ := Nat.exists_eq_add_of_lt hfuel
    rw [List.append_nil]
    exact hclose _ isFirst seen
  | cons a as ih =>
    obtain ⟨hfirst, hfirsts⟩ := List.forall_mem_cons.1 hfirst
    obtain ⟨hnext, hnexts⟩ := List.forall_mem_cons.1 hnext
    obtain ⟨hone, hones⟩ := List.forall_mem_cons.1 hone
    obtain ⟨hpos, hposs⟩ := List.forall_mem_cons.1 hpos
    obtain ⟨fuel, rfl⟩ : ∃ n, fuel = n + 1 := ⟨fuel - 1, by omega⟩
    have hgo : (print a).length ≤ fuel → (listed false (as.map print)).length < fuel →
        Takes (do let a ← p fuel; l fuel false (a :: seen)) (print a ++ (listed false (as.map print) ++ [close]))
          (seen.reverse ++ a :: as) := by
      intro hfits hmore
      have hrest := ih hfirsts hnexts hones hposs false (a :: seen) hmore
      rw [List.reverse_cons, List.append_assoc] at hrest
      exact (hone fuel hfits).bind hrest
    cases isFirst with
    | true =>
      simp only [List.map_cons, listed, List.length_append] at hfuel
      simp only [List.map_cons, listed, List.append_assoc]
      exact hfirst fuel seen _ _ (hgo (by omega) (by omega))
    | false =>
      simp only [List.map_cons, listed, List.length_cons, List.length_append] at hfuel
      simp only [List.map_cons, listed, List.append_assoc, List.cons_append]
      exact hnext fuel seen _ _ (hgo (by omega) (by omega))

/-- Items that are printed are read back. -/
theorem takes_items {js : List Json} (hwithin : ∀ j ∈ js, Within d j) (hread : ∀ j ∈ js, Readable d j)
    (hfuel : (listed true (js.map bytes)).length < fuel) :
    Takes (items fuel d true []) (listed true (js.map bytes) ++ [93]) js := by
  have hopens : ∀ j ∈ js, ∃ b text, j.bytes = b :: text ∧ isBlank b = false ∧ b ≠ 93 := by
    intro j hj
    obtain ⟨b, text, hbytes, hopening⟩ := (hwithin j hj).opening
    exact ⟨b, text, hbytes, hopening.solid⟩
  refine takes_listed (l := fun fuel => items fuel d) (p := fun fuel => value fuel d) ?_ ?_ ?_ hread ?_ true [] hfuel
  · intro fuel isFirst seen
    rw [items]
    exact .peekSolid (by decide) (.skip (.pure _))
  · intro j hj fuel seen text out h
    obtain ⟨b, front, hbytes, hsolid, hopen⟩ := hopens j hj
    rw [hbytes, List.cons_append] at h ⊢
    rw [items]
    refine .peekSolid hsolid ?_
    simpa [hopen] using h
  · intro j hj fuel seen text out h
    obtain ⟨b, front, hbytes, hsolid, hopen⟩ := hopens j hj
    rw [hbytes, List.cons_append] at h ⊢
    rw [items]
    refine .peekSolid (by decide) (.skip (.peekSolid hsolid ?_))
    split
    · next heq => exact absurd (Option.some.inj heq) hopen
    · next heq => exact absurd heq (by simp)
    · exact h
  · intro j hj
    obtain ⟨b, front, hbytes, -⟩ := hopens j hj
    rw [hbytes]
    exact Nat.succ_pos _

/-- A member that is printed is read back. -/
theorem takes_member {m : String × Json} (hread : Readable d m.2) (hfuel : (memberBytes m).length ≤ fuel) :
    Takes (member fuel d) (memberBytes m) m := by
  simp only [memberBytes, List.cons_append, List.append_assoc, List.length_cons, List.length_append] at hfuel
  obtain ⟨fuel, rfl⟩ : ∃ n, fuel = n + 1 := ⟨fuel - 1, by omega⟩
  have hvalue := (hread fuel (by omega)).map fun j => (m.1, j)
  rw [member]
  refine .skip ((takes_stringText m.1).bind ?_)
  exact .peekSolid (by decide) (.skip hvalue)

/-- Members that are printed are read back. -/
theorem takes_members {ms : List (String × Json)} (hread : ∀ m ∈ ms, Readable d m.2)
    (hfuel : (listed true (ms.map memberBytes)).length < fuel) :
    Takes (members fuel d true []) (listed true (ms.map memberBytes) ++ [125]) ms := by
  have hquote : ∀ m : String × Json, ∃ front, memberBytes m = 34 :: front := fun m => ⟨_, rfl⟩
  refine takes_listed (l := fun fuel => members fuel d) (p := fun fuel => member fuel d) ?_ ?_ ?_
    (fun m hm fuel hfits => takes_member (hread m hm) hfits) (fun m _ => Nat.succ_pos _) true [] hfuel
  · intro fuel isFirst seen
    rw [members]
    exact .peekSolid (by decide) (.skip (.pure _))
  · intro m _ fuel seen text out h
    obtain ⟨front, hbytes⟩ := hquote m
    rw [hbytes, List.cons_append] at h ⊢
    rw [members]
    exact .peekSolid (by decide) h
  · intro m _ fuel seen text out h
    obtain ⟨front, hbytes⟩ := hquote m
    rw [hbytes, List.cons_append] at h ⊢
    rw [members]
    exact .peekSolid (by decide) (.skip (.peekSolid (by decide) h))

end Listed

/-- A document that is nested no deeper than may be opened is read from its bytes. -/
theorem takes_value {d : Nat} {j : Json} (h : Within d j) : Readable d j := by
  induction h with
  | string d s =>
    intro fuel hfuel
    rw [bytes_string] at hfuel ⊢
    obtain ⟨fuel, rfl⟩ : ∃ n, fuel = n + 1 := ⟨fuel - 1, by simp only [List.length_cons] at hfuel; omega⟩
    cases d <;>
    · rw [value]
      exact .peekSolid (by decide) (.skip ((takes_stringText s).map string))
  | bool d b =>
    intro fuel hfuel
    cases b with
    | true =>
      rw [bytes_true] at hfuel ⊢
      obtain ⟨fuel, rfl⟩ : ∃ n, fuel = n + 1 := ⟨fuel - 1, by simp only [List.length_cons] at hfuel; omega⟩
      cases d <;>
      · rw [value]
        exact .peekSolid (by decide) (.skip ((Takes.word [114, 117, 101]).map fun _ => bool true))
    | false =>
      rw [bytes_false] at hfuel ⊢
      obtain ⟨fuel, rfl⟩ : ∃ n, fuel = n + 1 := ⟨fuel - 1, by simp only [List.length_cons] at hfuel; omega⟩
      cases d <;>
      · rw [value]
        exact .peekSolid (by decide) (.skip ((Takes.word [97, 108, 115, 101]).map fun _ => bool false))
  | @array d js hitems ih =>
    intro fuel hfuel
    rw [bytes_array] at hfuel ⊢
    simp only [List.length_cons, List.length_append, List.length_nil] at hfuel
    obtain ⟨fuel, rfl⟩ : ∃ n, fuel = n + 1 := ⟨fuel - 1, by omega⟩
    rw [value]
    exact .peekSolid (by decide) (.skip ((takes_items hitems ih (by omega)).map array))
  | @object d ms hmembers ih =>
    intro fuel hfuel
    rw [bytes_object] at hfuel ⊢
    simp only [List.length_cons, List.length_append, List.length_nil] at hfuel
    obtain ⟨fuel, rfl⟩ : ∃ n, fuel = n + 1 := ⟨fuel - 1, by omega⟩
    rw [value]
    exact .peekSolid (by decide) (.skip ((takes_members ih (by omega)).map object))

/-! ## Streams -/

/-- The text of documents that are printed line by line. -/
def lines (js : List Json) : Bytes := js.flatMap fun j => j.bytes ++ [10]

/-- Bytes that are to be dropped are counted. -/
theorem dropCounting_append {p : UInt8 → Bool} {before : Bytes} (hbefore : ∀ b ∈ before, p b = true) (n : Nat)
    (rest : Bytes) : dropCounting p n (before ++ rest) = dropCounting p (n + before.length) rest := by
  induction before generalizing n with
  | nil => rfl
  | cons x before ih =>
    obtain ⟨hx, hmore⟩ := List.forall_mem_cons.1 hbefore
    rw [List.cons_append, dropCounting, if_pos hx, ih hmore, List.length_cons, Nat.add_assoc, Nat.add_comm 1]

/-- The next document is read together with the blanks before it, up to the end of its line. -/
theorem streamItem_printed {size : Nat} {j : Json} (h : Within nestingLimit j) (hsize : j.bytes.length ≤ size)
    {before : Bytes} (hbefore : ∀ b ∈ before, isBlank b = true) (rest : Bytes) (offset : Nat) :
    ∃ offset', (streamItem size).run ⟨before ++ (j.bytes ++ 10 :: rest), offset⟩ = .ok (some j, ⟨10 :: rest, offset'⟩) := by
  obtain ⟨b, text, hbytes, hopening⟩ := h.opening
  have hpeek : peekSolid ⟨before ++ (j.bytes ++ 10 :: rest), offset⟩ =
      .ok (some b, ⟨j.bytes ++ 10 :: rest, offset + (0 + before.length)⟩) := by
    simp [peekSolid, dropCounting_append hbefore, hbytes, dropCounting, hopening.solid.1]
  have hvalue := takes_value h (2 * size + 2) (by omega) (10 :: rest) (offset + (0 + before.length))
  refine ⟨offset + (0 + before.length) + j.bytes.length, ?_⟩
  refine (bind_of_ok hpeek).trans ((bind_of_ok hvalue).trans ?_)
  -- A word has to end there, and the end of its line ends it.
  split <;> rfl

/-- Documents that are printed line by line are read in order, blanks before them or not. -/
theorem streamFrom_printed {js : List Json} (h : ∀ j ∈ js, Within nestingLimit j) {fuel size : Nat}
    (hfuel : js.length < fuel)
    (hsize : (lines js).length ≤ size) {before : Bytes} (hbefore : ∀ b ∈ before, isBlank b = true) (offset : Nat)
    (seen : List Json) : streamFrom fuel size ⟨before ++ lines js, offset⟩ seen = (seen.reverse ++ js, none) := by
  induction js generalizing fuel before offset seen with
  | nil =>
    obtain ⟨fuel, rfl⟩ : ∃ n, fuel = n + 1 := ⟨fuel - 1, by omega⟩
    have hpeek : peekSolid ⟨before ++ lines [], offset⟩ = .ok (none, ⟨[], offset + (0 + before.length)⟩) := by
      have hdrop := dropCounting_append hbefore 0 []
      simp only [peekSolid, lines, List.flatMap_nil, hdrop]
      rfl
    have hitem : (streamItem size).run ⟨before ++ lines [], offset⟩ = .ok (none, ⟨[], offset + (0 + before.length)⟩) :=
      bind_of_ok hpeek
    rw [streamFrom, hitem, List.append_nil]
  | cons j js ih =>
    obtain ⟨hj, hjs⟩ := List.forall_mem_cons.1 h
    have hsplit : lines (j :: js) = j.bytes ++ 10 :: lines js := by simp [lines]
    rw [hsplit, List.length_append, List.length_cons] at hsize
    rw [List.length_cons] at hfuel
    obtain ⟨fuel, rfl⟩ : ∃ n, fuel = n + 1 := ⟨fuel - 1, by omega⟩
    have hfirst : j.bytes.length ≤ size := by omega
    obtain ⟨offset', hitem⟩ := streamItem_printed hj hfirst hbefore (lines js) offset
    have hblank : ∀ b ∈ [(10 : UInt8)], isBlank b = true := List.forall_mem_singleton.2 rfl
    have hmore : js.length < fuel := by omega
    have hrest := ih hjs hmore (by omega) hblank offset' (j :: seen)
    rw [List.reverse_cons, List.append_assoc] at hrest
    rw [hsplit, streamFrom, hitem]
    exact hrest

/-- Documents that are printed line by line are read from the whole text. -/
theorem readStream_printed {js : List Json} (h : ∀ j ∈ js, Within nestingLimit j) : readStream (lines js) = (js, none) := by
  have hlength : js.length ≤ (lines js).length := by
    clear h
    induction js with
    | nil => exact Nat.zero_le _
    | cons j js ih =>
      simp only [lines, List.flatMap_cons, List.length_append, List.length_cons, List.length_nil] at ih ⊢
      omega
  have hfuel : js.length < (lines js).length + 1 := by omega
  exact streamFrom_printed h hfuel (Nat.le_refl _) (List.forall_mem_nil _) 0 []

end Json

end DualShell
