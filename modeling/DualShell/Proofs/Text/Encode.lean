import Mathlib.Data.List.Basic
import DualShell.Text.Utf8

/-!
# The bytes of a text

A text is encoded character by character (`Utf8.encode_eq`). A character that has a byte of its own has one below 0x80,
and the bytes of every other one are not below it (`Utf8.encodeChar_long`). One step of reading takes what one character
was encoded to (`Utf8.scan_encoded`), so decoding undoes encoding (`Utf8.decode_encode`).
-/

namespace DualShell

namespace Utf8

/-- The low six bits of a byte are what is left of it. -/
theorem toNat_and_three_f (b : UInt8) : (b &&& 0x3F).toNat = b.toNat % 64 :=
  (UInt8.toNat_and b 0x3F).trans (Nat.and_two_pow_sub_one_eq_mod b.toNat 6)

/-! ## Encoding -/

/-- A text is encoded character by character. -/
theorem encode_eq (s : String) : encode s = s.toList.flatMap String.utf8EncodeChar := by
  unfold encode
  rw [← String.utf8Encode_toList]
  simp [List.utf8Encode]

/-- A text is encoded part by part. -/
theorem encode_append (s t : String) : encode (s ++ t) = encode s ++ encode t := by
  simp [encode_eq]

theorem encode_ofList (cs : List Char) : encode (String.ofList cs) = cs.flatMap String.utf8EncodeChar := by
  simp [encode_eq]

theorem encode_char (c : Char) : encode c.toString = String.utf8EncodeChar c := by
  simp [encode_eq]

theorem toNat_ofNat {n : Nat} (h : n < 256) : (UInt8.ofNat n).toNat = n := UInt8.toNat_ofNat_of_lt h

/-- A character is encoded to one, two, three or four bytes. -/
theorem encodeChar_eq (c : Char) : String.utf8EncodeChar c =
    if c.toNat ≤ 127 then [UInt8.ofNat c.toNat]
    else if c.toNat ≤ 2047 then [UInt8.ofNat (c.toNat / 64 % 32 + 192), UInt8.ofNat (c.toNat % 64 + 128)]
    else if c.toNat ≤ 65535 then
      [UInt8.ofNat (c.toNat / 4096 % 16 + 224), UInt8.ofNat (c.toNat / 64 % 64 + 128), UInt8.ofNat (c.toNat % 64 + 128)]
    else
      [UInt8.ofNat (c.toNat / 262144 % 8 + 240), UInt8.ofNat (c.toNat / 4096 % 64 + 128),
        UInt8.ofNat (c.toNat / 64 % 64 + 128), UInt8.ofNat (c.toNat % 64 + 128)] := rfl

/-- A character below 0x80 has a byte of its own. -/
theorem encodeChar_ascii {c : Char} (h : c.toNat < 0x80) : String.utf8EncodeChar c = [UInt8.ofNat c.toNat] := by
  rw [encodeChar_eq, if_pos (Nat.le_of_lt_succ h)]

/-- The bytes of another character are not below 0x80. -/
theorem encodeChar_long {c : Char} (h : 0x80 ≤ c.toNat) : ∀ b ∈ String.utf8EncodeChar c, 0x80 ≤ b.toNat := by
  have hbyte : ∀ n, 128 ≤ n → n < 256 → 0x80 ≤ (UInt8.ofNat n).toNat := by
    intro n hlow hhigh
    rw [toNat_ofNat hhigh]
    exact hlow
  intro b hb
  rw [encodeChar_eq, if_neg (Nat.not_le.2 h)] at hb
  split at hb
  · simp only [List.mem_cons, List.not_mem_nil, or_false] at hb
    rcases hb with rfl | rfl <;> exact hbyte _ (by omega) (by omega)
  · split at hb <;> simp only [List.mem_cons, List.not_mem_nil, or_false] at hb
    · rcases hb with rfl | rfl | rfl <;> exact hbyte _ (by omega) (by omega)
    · rcases hb with rfl | rfl | rfl | rfl <;> exact hbyte _ (by omega) (by omega)

/-! ## Reading one character -/

/-- A tail in its range adds six bits. -/
theorem tails_cons {code taken owed n : Nat} {low high : UInt8} (hn : n < 64) (hlow : low.toNat ≤ n + 128)
    (hhigh : n + 128 ≤ high.toNat)
    (rest : Bytes) : tails code taken low high (owed + 1) (UInt8.ofNat (n + 128) :: rest) =
      tails (code * 64 + n) (taken + 1) 0x80 0xBF owed rest := by
  have hbyte := toNat_ofNat (n := n + 128) (by omega)
  have hrange : (low ≤ UInt8.ofNat (n + 128) && UInt8.ofNat (n + 128) ≤ high) = true := by
    simp only [UInt8.le_iff_toNat_le, hbyte, hlow, hhigh, decide_true, Bool.and_self]
  have hbits : (n + 128) % 64 = n := by omega
  rw [tails, if_pos hrange, toNat_and_three_f, hbyte, hbits]

/-- The value of the low five, four and three bits. -/
theorem toNat_and_low (b : UInt8) :
    (b &&& 0x1F).toNat = b.toNat % 32 ∧ (b &&& 0x0F).toNat = b.toNat % 16 ∧ (b &&& 0x07).toNat = b.toNat % 8 :=
  ⟨(UInt8.toNat_and b 0x1F).trans (Nat.and_two_pow_sub_one_eq_mod b.toNat 5),
    (UInt8.toNat_and b 0x0F).trans (Nat.and_two_pow_sub_one_eq_mod b.toNat 4),
    (UInt8.toNat_and b 0x07).trans (Nat.and_two_pow_sub_one_eq_mod b.toNat 3)⟩

/-- The lead byte of a character of several bytes, by the range it lies in. -/
theorem Lead.of?_eq (b : UInt8) : Lead.of? b =
    if 0xC2 ≤ b.toNat ∧ b.toNat ≤ 0xDF then some ⟨b.toNat % 32, 0x80, 0xBF, 1⟩
    else if b.toNat = 0xE0 then some ⟨0, 0xA0, 0xBF, 2⟩
    else if b.toNat = 0xED then some ⟨0xD, 0x80, 0x9F, 2⟩
    else if 0xE1 ≤ b.toNat ∧ b.toNat ≤ 0xEF then some ⟨b.toNat % 16, 0x80, 0xBF, 2⟩
    else if b.toNat = 0xF0 then some ⟨0, 0x90, 0xBF, 3⟩
    else if b.toNat = 0xF4 then some ⟨4, 0x80, 0x8F, 3⟩
    else if 0xF1 ≤ b.toNat ∧ b.toNat ≤ 0xF3 then some ⟨b.toNat % 8, 0x80, 0xBF, 3⟩
    else none := by
  obtain ⟨hfive, hfour, hthree⟩ := toNat_and_low b
  unfold Lead.of?
  simp only [Bool.and_eq_true, decide_eq_true_eq, UInt8.le_iff_toNat_le, beq_iff_eq, ← UInt8.toNat_inj, hfive, hfour, hthree]
  rfl

/-- The lead byte of a number that takes three bytes. The first tail of some lead bytes has a range of its own. -/
theorem Lead.of?_three {n : Nat} (hlow : 2047 < n) (hhigh : n ≤ 65535)
    (hvalid : n < 0xD800 ∨ 0xDFFF < n ∧ n < 0x110000) :
    ∃ low high, Lead.of? (UInt8.ofNat (n / 4096 % 16 + 224)) = some ⟨n / 4096, low, high, 2⟩ ∧
      low.toNat ≤ n / 64 % 64 + 128 ∧ n / 64 % 64 + 128 ≤ high.toNat := by
  have hfull : (0x80 : UInt8).toNat = 128 ∧ (0xBF : UInt8).toNat = 191 := ⟨rfl, rfl⟩
  rw [Lead.of?_eq, toNat_ofNat (by omega), if_neg (by omega)]
  by_cases hfirst : n / 4096 = 0
  · refine ⟨0xA0, 0xBF, by rw [if_pos (by omega), hfirst], ?_, ?_⟩
    · show 160 ≤ _
      omega
    · omega
  · rw [if_neg (by omega)]
    by_cases hsurrogates : n / 4096 = 13
    · refine ⟨0x80, 0x9F, by rw [if_pos (by omega), hsurrogates], ?_, ?_⟩
      · omega
      · show _ ≤ 159
        omega
    · have hpayload : (n / 4096 % 16 + 224) % 16 = n / 4096 := by omega
      exact ⟨0x80, 0xBF, by rw [if_neg (by omega), if_pos (by omega), hpayload], by omega, by omega⟩

/-- The lead byte of a number that takes four bytes. -/
theorem Lead.of?_four {n : Nat} (hlow : 65535 < n) (hvalid : n < 0xD800 ∨ 0xDFFF < n ∧ n < 0x110000) :
    ∃ low high, Lead.of? (UInt8.ofNat (n / 262144 % 8 + 240)) = some ⟨n / 262144, low, high, 3⟩ ∧
      low.toNat ≤ n / 4096 % 64 + 128 ∧ n / 4096 % 64 + 128 ≤ high.toNat := by
  have hfull : (0x80 : UInt8).toNat = 128 ∧ (0xBF : UInt8).toNat = 191 := ⟨rfl, rfl⟩
  rw [Lead.of?_eq, toNat_ofNat (by omega), if_neg (by omega), if_neg (by omega), if_neg (by omega), if_neg (by omega)]
  by_cases hfirst : n / 262144 = 0
  · refine ⟨0x90, 0xBF, by rw [if_pos (by omega), hfirst], ?_, ?_⟩
    · show 144 ≤ _
      omega
    · omega
  · rw [if_neg (by omega)]
    by_cases hlast : n / 262144 = 4
    · refine ⟨0x80, 0x8F, by rw [if_pos (by omega), hlast], ?_, ?_⟩
      · omega
      · show _ ≤ 143
        omega
    · have hpayload : (n / 262144 % 8 + 240) % 8 = n / 262144 := by omega
      exact ⟨0x80, 0xBF, by rw [if_neg (by omega), if_pos (by omega), hpayload], by omega, by omega⟩

/-- A lead byte and its tails give the character they have the number of. -/
theorem scan_lead {n : Nat} {lead : Lead} {rest : Bytes} {c : Char} (hlow : 0xC2 ≤ n) (hn : n < 256)
    (hlead : Lead.of? (UInt8.ofNat n) = some lead)
    (htails : tails lead.payload 0 lead.low lead.high lead.tails rest = .whole c.toNat) :
    scan (UInt8.ofNat n) rest = .char c (lead.tails + 1) := by
  have hnot : ¬UInt8.ofNat n < 0x80 := by
    rw [UInt8.lt_iff_toNat_lt, toNat_ofNat hn]
    show ¬n < 128
    omega
  rw [scan, if_neg hnot, hlead]
  dsimp only
  rw [htails]
  dsimp only
  rw [Char.ofNat_toNat]

/-- One step of reading takes what one character is encoded to. -/
theorem scan_encoded (c : Char) (rest : Bytes) :
    ∃ b bs, String.utf8EncodeChar c = b :: bs ∧ scan b (bs ++ rest) = .char c (bs.length + 1) := by
  have hvalid : c.toNat < 0xD800 ∨ 0xDFFF < c.toNat ∧ c.toNat < 0x110000 := c.valid
  have hfull : (0x80 : UInt8).toNat = 128 ∧ (0xBF : UInt8).toNat = 191 := ⟨rfl, rfl⟩
  by_cases hone : c.toNat ≤ 127
  · have hlt : UInt8.ofNat c.toNat < 0x80 := by
      rw [UInt8.lt_iff_toNat_lt, toNat_ofNat (by omega)]
      exact Nat.lt_succ_of_le hone
    refine ⟨_, [], encodeChar_ascii (Nat.lt_succ_of_le hone), ?_⟩
    rw [scan, if_pos hlt, toNat_ofNat (by omega), Char.ofNat_toNat]
    rfl
  · rw [encodeChar_eq, if_neg hone]
    by_cases htwo : c.toNat ≤ 2047
    · rw [if_pos htwo]
      have hpayload : (c.toNat / 64 % 32 + 192) % 32 = c.toNat / 64 := by omega
      have hlead : Lead.of? (UInt8.ofNat (c.toNat / 64 % 32 + 192)) = some ⟨c.toNat / 64, 0x80, 0xBF, 1⟩ := by
        rw [Lead.of?_eq, toNat_ofNat (by omega), if_pos (by omega), hpayload]
      refine ⟨_, [_], rfl, scan_lead (by omega) (by omega) hlead ?_⟩
      dsimp only
      rw [List.singleton_append, tails_cons (by omega) (by omega) (by omega), tails]
      congr 1
      omega
    · rw [if_neg htwo]
      by_cases hthree : c.toNat ≤ 65535
      · rw [if_pos hthree]
        obtain ⟨low, high, hlead, hlow, hhigh⟩ := Lead.of?_three (Nat.lt_of_not_le htwo) hthree hvalid
        refine ⟨_, [_, _], rfl, scan_lead (by omega) (by omega) hlead ?_⟩
        dsimp only
        rw [List.cons_append, tails_cons (by omega) hlow hhigh, List.singleton_append,
          tails_cons (by omega) (by omega) (by omega), tails]
        congr 1
        omega
      · rw [if_neg hthree]
        obtain ⟨low, high, hlead, hlow, hhigh⟩ := Lead.of?_four (Nat.lt_of_not_le hthree) hvalid
        refine ⟨_, [_, _, _], rfl, scan_lead (by omega) (by omega) hlead ?_⟩
        dsimp only
        rw [List.cons_append, tails_cons (by omega) hlow hhigh, List.cons_append,
          tails_cons (by omega) (by omega) (by omega),
          List.singleton_append, tails_cons (by omega) (by omega) (by omega), tails]
        congr 1
        omega

/-! ## Decoding -/

/-- The strict reading of encoded characters is these characters. -/
theorem strictChars_encoded (cs : List Char) {fuel : Nat} (hfuel : (cs.flatMap String.utf8EncodeChar).length ≤ fuel)
    (index : Nat)
    (seen : List Char) : strictChars fuel index seen (cs.flatMap String.utf8EncodeChar) = .ok (seen.reverse ++ cs) := by
  induction cs generalizing fuel index seen with
  | nil => cases fuel <;> simp [strictChars]
  | cons c cs ih =>
    obtain ⟨b, bs, hbytes, hscan⟩ := scan_encoded c (cs.flatMap String.utf8EncodeChar)
    rw [List.flatMap_cons, hbytes, List.cons_append] at hfuel ⊢
    rw [List.length_cons, List.length_append] at hfuel
    cases fuel with
    | zero => omega
    | succ fuel =>
      rw [strictChars, hscan]
      dsimp only
      rw [Nat.add_sub_cancel, List.drop_left, ih (by omega)]
      simp

/-- Decoding undoes encoding. -/
theorem decode_encode (s : String) : decode (encode s) = .ok s := by
  unfold decode
  rw [encode_eq, strictChars_encoded s.toList (Nat.le_refl _)]
  simp [Except.map]

/-- The lenient reading of encoded characters is these characters. -/
theorem lenientChars_encoded (cs : List Char) {fuel : Nat} (hfuel : (cs.flatMap String.utf8EncodeChar).length ≤ fuel)
    (seen : List Char) : lenientChars fuel seen (cs.flatMap String.utf8EncodeChar) = seen.reverse ++ cs := by
  induction cs generalizing fuel seen with
  | nil => cases fuel <;> simp [lenientChars]
  | cons c cs ih =>
    obtain ⟨b, bs, hbytes, hscan⟩ := scan_encoded c (cs.flatMap String.utf8EncodeChar)
    rw [List.flatMap_cons, hbytes, List.cons_append] at hfuel ⊢
    rw [List.length_cons, List.length_append] at hfuel
    cases fuel with
    | zero => omega
    | succ fuel =>
      rw [lenientChars, hscan]
      dsimp only
      rw [Nat.add_sub_cancel, List.drop_left, ih (by omega)]
      simp

/-- So does lenient decoding. -/
theorem decodeLenient_encode (s : String) : decodeLenient (encode s) = s := by
  unfold decodeLenient
  rw [encode_eq, lenientChars_encoded s.toList (Nat.le_refl _)]
  simp

/-- A byte below 0x80 among the bytes of a text is a character of the text. -/
theorem mem_of_mem_encode {b : UInt8} (hb : b.toNat < 0x80) {s : String} (h : b ∈ encode s) :
    Char.ofNat b.toNat ∈ s.toList := by
  rw [encode_eq] at h
  obtain ⟨c, hc, hmem⟩ := List.mem_flatMap.1 h
  by_cases hascii : c.toNat < 0x80
  · rw [encodeChar_ascii hascii, List.mem_singleton] at hmem
    rw [hmem, toNat_ofNat (by omega), Char.ofNat_toNat]
    exact hc
  · have hlong := encodeChar_long (Nat.le_of_not_lt hascii) b hmem
    omega

end Utf8

end DualShell
