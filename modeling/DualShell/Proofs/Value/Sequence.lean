import DualShell.Proofs.Value.Position

/-!
# Lists and strings by position

What indexing a list or a string answers to any text whatsoever (`Value.positions_read`): which element or which part it
is, where it stands, and that all else is an index error. A string is addressed by its bytes and cut between characters
only, so the statements speak of the texts before and after a part (`Value.Cut`, `Value.Stands`) and of their lengths in
bytes.
-/

namespace DualShell

open Position

/-! ## Texts by bytes -/

namespace ByteText

/-- What is left without some bytes is left without the characters that they are. -/
theorem drop?_eq_some {n : Nat} {cs back : List Char} :
    drop? n cs = some back ↔ ∃ front, cs = front ++ back ∧ String.utf8Len front = n := by
  induction cs generalizing n with
  | nil =>
    cases n with
    | zero => simp [drop?, eq_comm]
    | succ n =>
      simp only [drop?, List.nil_eq, List.append_eq_nil_iff]
      refine iff_of_false (by rintro ⟨⟩) ?_
      rintro ⟨front, ⟨rfl, -⟩, h⟩
      cases h
  | cons c cs ih =>
    have hpos := c.utf8Size_pos
    cases n with
    | zero =>
      simp only [drop?, Option.some.injEq]
      constructor
      · rintro rfl
        exact ⟨[], rfl, rfl⟩
      · rintro ⟨front, heq, hlen⟩
        cases front with
        | nil => exact heq
        | cons d front =>
          have hd := d.utf8Size_pos
          simp only [String.utf8Len_cons] at hlen
          omega
    | succ n =>
      rw [drop?]
      by_cases hle : c.utf8Size ≤ n + 1
      · rw [if_pos hle, ih]
        constructor
        · rintro ⟨front, rfl, hlen⟩
          exact ⟨c :: front, rfl, by rw [String.utf8Len_cons]; omega⟩
        · rintro ⟨front, heq, hlen⟩
          cases front with
          | nil => cases hlen
          | cons d front =>
            obtain ⟨rfl, rfl⟩ := List.cons.inj heq
            rw [String.utf8Len_cons] at hlen
            exact ⟨front, rfl, by omega⟩
      · rw [if_neg hle]
        refine iff_of_false (by rintro ⟨⟩) ?_
        rintro ⟨front, heq, hlen⟩
        cases front with
        | nil => cases hlen
        | cons d front =>
          obtain ⟨rfl, rfl⟩ := List.cons.inj heq
          rw [String.utf8Len_cons] at hlen
          omega

/-- What the first bytes are is the characters that they are. -/
theorem take?_eq_some {n : Nat} {cs front : List Char} :
    take? n cs = some front ↔ ∃ back, cs = front ++ back ∧ String.utf8Len front = n := by
  induction cs generalizing n front with
  | nil =>
    cases n with
    | zero =>
      simp only [take?, Option.some.injEq]
      constructor
      · rintro rfl
        exact ⟨[], rfl, rfl⟩
      · rintro ⟨back, heq, -⟩
        exact (List.append_eq_nil_iff.1 heq.symm).1.symm
    | succ n =>
      refine iff_of_false (by rintro ⟨⟩) ?_
      rintro ⟨back, heq, hlen⟩
      rw [(List.append_eq_nil_iff.1 heq.symm).1] at hlen
      cases hlen
  | cons c cs ih =>
    cases n with
    | zero =>
      simp only [take?, Option.some.injEq]
      constructor
      · rintro rfl
        exact ⟨c :: cs, rfl, rfl⟩
      · rintro ⟨back, -, hlen⟩
        cases front with
        | nil => rfl
        | cons d front =>
          have hd := d.utf8Size_pos
          rw [String.utf8Len_cons] at hlen
          omega
    | succ n =>
      rw [take?]
      by_cases hle : c.utf8Size ≤ n + 1
      · rw [if_pos hle, Option.map_eq_some_iff]
        constructor
        · rintro ⟨front, hfront, rfl⟩
          obtain ⟨back, rfl, hlen⟩ := ih.1 hfront
          exact ⟨back, rfl, by rw [String.utf8Len_cons]; omega⟩
        · rintro ⟨back, heq, hlen⟩
          cases front with
          | nil => cases hlen
          | cons d front =>
            obtain ⟨rfl, rfl⟩ := List.cons.inj heq
            rw [String.utf8Len_cons] at hlen
            exact ⟨front, ih.2 ⟨back, rfl, by omega⟩, rfl⟩
      · rw [if_neg hle]
        refine iff_of_false (by rintro ⟨⟩) ?_
        rintro ⟨back, heq, hlen⟩
        cases front with
        | nil => cases hlen
        | cons d front =>
          obtain ⟨rfl, rfl⟩ := List.cons.inj heq
          rw [String.utf8Len_cons] at hlen
          omega

/-- The length of a string in bytes is that of its characters. -/
theorem utf8Len_toList (s : String) : String.utf8Len s.toList = s.utf8ByteSize := by
  rw [← String.utf8ByteSize_ofList, String.ofList_toList]

/-- A part of a text lies between a text before it and one after it. -/
theorem slice?_eq_some {s t : String} {p q : Nat} (hle : p ≤ q) : slice? s p q = some t ↔
    ∃ front back : String, s = front ++ t ++ back ∧ front.utf8ByteSize = p ∧ front.utf8ByteSize + t.utf8ByteSize = q := by
  unfold slice?
  constructor
  · intro h
    split at h
    · cases h
    · rename_i rest hrest
      obtain ⟨front, hs, hfront⟩ := drop?_eq_some.1 hrest
      obtain ⟨middle, hmiddle, rfl⟩ := Option.map_eq_some_iff.1 h
      obtain ⟨back, rfl, hlen⟩ := take?_eq_some.1 hmiddle
      refine ⟨String.ofList front, String.ofList back, ?_, ?_, ?_⟩
      · rw [← String.ofList_append, ← String.ofList_append, List.append_assoc, ← hs, String.ofList_toList]
      · rw [String.utf8ByteSize_ofList, hfront]
      · rw [String.utf8ByteSize_ofList, String.utf8ByteSize_ofList]
        omega
  · rintro ⟨front, back, rfl, hp, hq⟩
    have hdrop : drop? p (front ++ t ++ back).toList = some (t.toList ++ back.toList) :=
      drop?_eq_some.2 ⟨front.toList, by simp, by rw [utf8Len_toList, hp]⟩
    have htake : take? (q - p) (t.toList ++ back.toList) = some t.toList :=
      take?_eq_some.2 ⟨back.toList, rfl, by rw [utf8Len_toList]; omega⟩
    rw [hdrop]
    simp only [htake, Option.map_some, String.ofList_toList]

/-- A character is as long as it is. -/
theorem utf8ByteSize_char (c : Char) : c.toString.utf8ByteSize = c.utf8Size := String.utf8ByteSize_singleton

/-- What a character starts with its place. -/
theorem drop?_char (front back : String) (c : Char) :
    drop? front.utf8ByteSize (front ++ c.toString ++ back).toList = some (c :: back.toList) :=
  drop?_eq_some.2 ⟨front.toList, by simp, utf8Len_toList front⟩

/-- After a character comes what stands behind it. -/
theorem after_char (front back : String) (c : Char) :
    after (front ++ c.toString ++ back) front.utf8ByteSize = front.utf8ByteSize + c.utf8Size := by
  unfold after
  rw [drop?_char]

/-- What lies between an offset and the end of the character there is that character, if one starts there. -/
theorem slice?_after {s t : String} {p : Nat} (hlt : p < s.utf8ByteSize) : slice? s p (after s p) = some t ↔
    ∃ (front back : String) (c : Char), s = front ++ c.toString ++ back ∧ front.utf8ByteSize = p ∧ t = c.toString := by
  constructor
  · intro h
    have hpart := h
    unfold slice? at hpart
    cases hdrop : drop? p s.toList with
    | none =>
      rw [hdrop] at hpart
      cases hpart
    | some rest =>
      obtain ⟨front, hs, hfront⟩ := drop?_eq_some.1 hdrop
      cases rest with
      | nil =>
        have hlen := utf8Len_toList s
        rw [hs, List.append_nil] at hlen
        omega
      | cons c rest =>
        have hs' : s = String.ofList front ++ c.toString ++ String.ofList rest := by
          apply String.toList_injective
          simp [hs]
        have hsize : (String.ofList front).utf8ByteSize = p := by rw [String.utf8ByteSize_ofList, hfront]
        refine ⟨String.ofList front, String.ofList rest, c, hs', hsize, ?_⟩
        have hafter : after s p = p + c.utf8Size := by rw [hs', ← hsize, after_char]
        have hchar : slice? s p (after s p) = some c.toString :=
          (slice?_eq_some (by omega)).2 ⟨_, _, hs', hsize, by rw [utf8ByteSize_char, hafter, hsize]⟩
        exact Option.some.inj (h.symm.trans hchar)
  · rintro ⟨front, back, c, rfl, rfl, rfl⟩
    rw [after_char]
    exact (slice?_eq_some (Nat.le_add_right _ _)).2 ⟨front, back, rfl, rfl, by rw [utf8ByteSize_char]⟩

end ByteText

/-! ## Parts of lists and strings -/

namespace Value

/-- How many positions a list or a string has: its items, or its bytes. -/
def length? : Value → Option Nat
  | .list items => some items.length
  | .string s => some s.utf8ByteSize
  | _ => none

/-- The last value is what a list or a string holds from one position up to another. -/
inductive Cut : Value → Nat → Nat → Value → Prop
  | list (front middle back : List Value) :
      Cut (.list (front ++ middle ++ back)) front.length (front.length + middle.length) (.list middle)
  | string (front middle back : String) :
      Cut (.string (front ++ middle ++ back)) front.utf8ByteSize (front.utf8ByteSize + middle.utf8ByteSize) (.string middle)

/-- The last value is the item or the character that stands at a position, up to another one. -/
inductive Stands : Value → Nat → Nat → Value → Prop
  | item (front back : List Value) (v : Value) : Stands (.list (front ++ v :: back)) front.length (front.length + 1) v
  | char (front back : String) (c : Char) : Stands (.string (front ++ c.toString ++ back)) front.utf8ByteSize
      (front.utf8ByteSize + c.utf8Size) (.string c.toString)

/-- An item or a character of a list or a string as a part of it. -/
def alone (v w : Value) : Value :=
  match v with
  | .list _ => .list [w]
  | _ => w

/-- Two lists or two strings joined. -/
def join? : Value → Value → Option Value
  | .list xs, .list ys => some (.list (xs ++ ys))
  | .string s, .string t => some (.string (s ++ t))
  | _, _ => none

variable {v w : Value} {n p q : Nat}

/-- A part is within its whole. -/
theorem Cut.le (h : v.Cut p q w) (hn : v.length? = some n) : p ≤ q ∧ q ≤ n := by
  cases h with
  | list | string =>
    cases hn
    simp

/-- An element is within its whole. -/
theorem Stands.lt (h : v.Stands p q w) (hn : v.length? = some n) : p < q ∧ q ≤ n := by
  cases h with
  | item =>
    cases hn
    simp
  | char front back c =>
    have hpos := c.utf8Size_pos
    cases hn
    simp
    omega

/-- What stands at a position is all there is up to the next one. -/
theorem Stands.cut (h : v.Stands p q w) : v.Cut p q (v.alone w) := by
  cases h with
  | item front back =>
    have hcut := Cut.list front [w] back
    rw [List.append_assoc] at hcut
    exact hcut
  | char front back c =>
    rw [← ByteText.utf8ByteSize_char]
    exact Cut.string front c.toString back

/-- A part of a list is the items between two positions. -/
theorem cut_list {items : List Value} : (Value.list items).Cut p q w ↔
    p ≤ q ∧ q ≤ items.length ∧ w = .list ((items.drop p).take (q - p)) := by
  constructor
  · intro h
    generalize hv : Value.list items = v at h
    cases h with
    | list front middle back =>
      cases hv
      refine ⟨by simp, by simp, ?_⟩
      simp
    | string => cases hv
  · rintro ⟨hpq, hq, rfl⟩
    have hsplit : items = items.take p ++ (items.drop p).take (q - p) ++ items.drop q := by
      have hdrop : (items.drop p).drop (q - p) = items.drop q := by rw [List.drop_drop, Nat.add_sub_cancel' hpq]
      rw [← hdrop, List.append_assoc, List.take_append_drop, List.take_append_drop]
    have hcut := Cut.list (items.take p) ((items.drop p).take (q - p)) (items.drop q)
    rw [← hsplit] at hcut
    have hlength : (items.take p).length = p := by
      rw [List.length_take]
      omega
    have hmiddle : ((items.drop p).take (q - p)).length = q - p := by
      rw [List.length_take, List.length_drop]
      omega
    rw [hlength, hmiddle, Nat.add_sub_cancel' hpq] at hcut
    exact hcut

/-- A part of a string is the characters between two positions, if characters begin there. -/
theorem cut_string {s : String} : (Value.string s).Cut p q w ↔ p ≤ q ∧ ∃ t, ByteText.slice? s p q = some t ∧
    w = .string t := by
  constructor
  · intro h
    generalize hv : Value.string s = v at h
    cases h with
    | list => cases hv
    | string front middle back =>
      cases hv
      exact ⟨Nat.le_add_right _ _, middle, (ByteText.slice?_eq_some (Nat.le_add_right _ _)).2 ⟨front, back, rfl,
        rfl, rfl⟩, rfl⟩
  · rintro ⟨hle, t, ht, rfl⟩
    obtain ⟨front, back, rfl, rfl, rfl⟩ := (ByteText.slice?_eq_some hle).1 ht
    exact .string front t back

/-- An element of a list is the item at its position. -/
theorem stands_list {items : List Value} : (∃ q, (Value.list items).Stands p q w) ↔ items[p]? = some w := by
  constructor
  · rintro ⟨q, h⟩
    generalize hv : Value.list items = v at h
    cases h with
    | item front back =>
      cases hv
      simp
    | char => cases hv
  · intro h
    obtain ⟨hlt, rfl⟩ := List.getElem?_eq_some_iff.1 h
    have hsplit : items = items.take p ++ items[p] :: items.drop (p + 1) := by simp
    have hitem := Stands.item (items.take p) (items.drop (p + 1)) items[p]
    rw [← hsplit, List.length_take, Nat.min_eq_left (Nat.le_of_lt hlt)] at hitem
    exact ⟨_, hitem⟩

/-- An element of a string is the character at its position. -/
theorem stands_string {s : String} (hlt : p < s.utf8ByteSize) : (∃ q, (Value.string s).Stands p q w) ↔
    ∃ t, ByteText.slice? s p (ByteText.after s p) = some t ∧ w = .string t := by
  constructor
  · rintro ⟨q, h⟩
    generalize hv : Value.string s = v at h
    cases h with
    | item => cases hv
    | char front back c =>
      cases hv
      exact ⟨_, (ByteText.slice?_after hlt).2 ⟨front, back, c, rfl, rfl, rfl⟩, rfl⟩
  · rintro ⟨t, ht, rfl⟩
    obtain ⟨front, back, c, rfl, rfl, rfl⟩ := (ByteText.slice?_after hlt).1 ht
    exact ⟨_, .char front back c⟩

/-! ## Indexing -/

/-- A key without two adjacent dots picks one item. -/
theorem indexList_single {items : List Value} {key : String} (hsingle : ¬Dotted key.toList) : indexList items key = .ok w ↔
    ∃ p, element key items.length = .ok p ∧ ∃ q, (Value.list items).Stands p q w := by
  unfold indexList
  rw [slice?_single hsingle]
  simp only [stands_list]
  cases hp : element key items.length with
  | error c => simp [bind, Except.bind]
  | ok p =>
    obtain ⟨_, _, _, hlt⟩ := element_eq_ok.1 hp
    simp [bind, Except.bind, pure, Except.pure, List.getD_eq_getElem?_getD, hlt]

/-- A key with two adjacent dots takes a part of the items. -/
theorem indexList_slice {items : List Value} {key : String} {front back : List Char}
    (hsplit : splitDots key.toList = some (front, back)) : indexList items key = .ok w ↔
      ∃ p q, Ends items.length 0 front p ∧ Ends items.length items.length back q ∧ (Value.list items).Cut p q w := by
  unfold indexList
  simp only [cut_list]
  cases hrange : slice? key items.length with
  | error c =>
    refine iff_of_false (by rintro ⟨⟩) ?_
    rintro ⟨p, q, hp, hq, hle, -⟩
    rw [(slice?_eq_ok hsplit).2 ⟨p, q, rfl, hp, hq, hle⟩] at hrange
    cases hrange
  | ok range =>
    obtain ⟨p, q, rfl, hp, hq, hle⟩ := (slice?_eq_ok hsplit).1 hrange
    simp only [bind, Except.bind, pure, Except.pure, Except.ok.injEq]
    constructor
    · rintro rfl
      exact ⟨p, q, hp, hq, hle, hq.le (Nat.le_refl _), rfl⟩
    · rintro ⟨p', q', hp', hq', -, -, rfl⟩
      rw [hp.unique hp', hq.unique hq']

/-- A key without two adjacent dots picks one character. -/
theorem indexString_single {s key : String} (hsingle : ¬Dotted key.toList) : indexString s key = .ok w ↔
    ∃ p, element key s.utf8ByteSize = .ok p ∧ ∃ q, (Value.string s).Stands p q w := by
  unfold indexString
  rw [slice?_single hsingle]
  cases hp : element key s.utf8ByteSize with
  | error c => simp [bind, Except.bind]
  | ok p =>
    obtain ⟨_, _, _, hlt⟩ := element_eq_ok.1 hp
    simp only [Except.ok.injEq, exists_eq_left', stands_string hlt]
    cases ht : ByteText.slice? s p (ByteText.after s p) with
    | none => simp [ht, bind, Except.bind, pure, Except.pure, throw, throwThe, MonadExceptOf.throw]
    | some t => simp [ht, bind, Except.bind, pure, Except.pure, eq_comm]

/-- A key with two adjacent dots takes a part of the text. -/
theorem indexString_slice {s key : String} {front back : List Char} (hsplit : splitDots key.toList = some (front, back)) :
    indexString s key = .ok w ↔
      ∃ p q, Ends s.utf8ByteSize 0 front p ∧ Ends s.utf8ByteSize s.utf8ByteSize back q ∧ (Value.string s).Cut p q w := by
  unfold indexString
  simp only [cut_string]
  cases hrange : slice? key s.utf8ByteSize with
  | error c =>
    refine iff_of_false (by rintro ⟨⟩) ?_
    rintro ⟨p, q, hp, hq, hle, -⟩
    rw [(slice?_eq_ok hsplit).2 ⟨p, q, rfl, hp, hq, hle⟩] at hrange
    cases hrange
  | ok range =>
    obtain ⟨p, q, rfl, hp, hq, hle⟩ := (slice?_eq_ok hsplit).1 hrange
    have hrun : (∃ p q, Ends s.utf8ByteSize 0 front p ∧ Ends s.utf8ByteSize s.utf8ByteSize back q ∧
        p ≤ q ∧ ∃ t, ByteText.slice? s p q = some t ∧ w = .string t) ↔ ∃ t, ByteText.slice? s p q = some t ∧
        w = .string t := by
      constructor
      · rintro ⟨p', q', hp', hq', -, ht⟩
        rwa [hp.unique hp', hq.unique hq']
      · exact fun ht => ⟨p, q, hp, hq, hle, ht⟩
    rw [hrun]
    cases ht : ByteText.slice? s p q with
    | none => simp [ht, bind, Except.bind, pure, Except.pure, throw, throwThe, MonadExceptOf.throw]
    | some t => simp [ht, bind, Except.bind, pure, Except.pure, eq_comm]

/-- A list that has nothing under a key refuses it as an index. -/
theorem indexList_refused {items : List Value} {key : String} {c : Cause} (h : indexList items key = .error c) :
    ∃ text, c = .index text := by
  unfold indexList at h
  cases hrange : slice? key items.length with
  | error d =>
    rw [hrange] at h
    cases h
    exact slice?_refused hrange
  | ok range =>
    rw [hrange] at h
    cases range with
    | some range => cases h
    | none =>
      cases hp : element key items.length with
      | error d =>
        simp only [hp, bind, Except.bind] at h
        cases h
        exact element_refused hp
      | ok p =>
        simp only [hp, bind, Except.bind] at h
        cases h

/-- A string that has nothing under a key refuses it as an index. -/
theorem indexString_refused {s key : String} {c : Cause} (h : indexString s key = .error c) : ∃ text, c = .index text := by
  unfold indexString at h
  cases hrange : slice? key s.utf8ByteSize with
  | error d =>
    rw [hrange] at h
    cases h
    exact slice?_refused hrange
  | ok range =>
    rw [hrange] at h
    cases range with
    | some range =>
      simp only [bind, Except.bind, pure, Except.pure] at h
      split at h <;> cases h
      exact ⟨_, rfl⟩
    | none =>
      cases hp : element key s.utf8ByteSize with
      | error d =>
        simp only [hp, bind, Except.bind] at h
        cases h
        exact element_refused hp
      | ok p =>
        simp only [hp, bind, Except.bind, pure, Except.pure] at h
        split at h <;> cases h
        exact ⟨_, rfl⟩

/-! ## What a text reads -/

/-- A part up to a place and the part from there on are there together, and make up the whole. -/
theorem cut_halves (hn : v.length? = some n) (hq : q ≤ n) : (∃ a, v.Cut 0 q a) ↔ ∃ b, v.Cut q n b := by
  cases v with
  | list items =>
    cases hn
    simp only [cut_list]
    exact ⟨fun _ => ⟨_, hq, Nat.le_refl _, rfl⟩, fun _ => ⟨_, Nat.zero_le _, hq, rfl⟩⟩
  | string s =>
    cases hn
    simp only [cut_string]
    constructor
    · rintro ⟨-, -, t, ht, rfl⟩
      obtain ⟨front, back, rfl, hfront, hsize⟩ := (ByteText.slice?_eq_some (Nat.zero_le _)).1 ht
      refine ⟨.string back, hq, back, (ByteText.slice?_eq_some hq).2 ⟨front ++ t, "", ?_, ?_, ?_⟩, rfl⟩
      · rw [String.append_empty]
      · rw [String.utf8ByteSize_append, hsize]
      · simp
    · rintro ⟨-, -, t, ht, rfl⟩
      obtain ⟨front, back, rfl, hfront, hsize⟩ := (ByteText.slice?_eq_some hq).1 ht
      refine ⟨.string front, Nat.zero_le _, front, (ByteText.slice?_eq_some (Nat.zero_le _)).2 ⟨"", t ++ back, ?_,
        rfl, ?_⟩, rfl⟩
      · rw [String.empty_append, String.append_assoc]
      · simpa using hfront
  | _ => cases hn

/-- Two parts that meet are joined to the whole. -/
theorem join?_halves {a b : Value} (hn : v.length? = some n) (ha : v.Cut 0 q a) (hb : v.Cut q n b) : join? a b = some v := by
  cases v with
  | list items =>
    cases hn
    obtain ⟨-, hq, rfl⟩ := cut_list.1 ha
    obtain ⟨-, -, rfl⟩ := cut_list.1 hb
    have hrest : (items.drop q).take (items.length - q) = items.drop q := List.take_of_length_le (by simp)
    simp [join?, hrest]
  | string s =>
    cases hn
    obtain ⟨-, t, ht, rfl⟩ := cut_string.1 ha
    obtain ⟨hle, u, hu, rfl⟩ := cut_string.1 hb
    obtain ⟨front, back, rfl, hfront, hsize⟩ := (ByteText.slice?_eq_some (Nat.zero_le _)).1 ht
    have hempty : front = "" := String.utf8ByteSize_eq_zero_iff.1 hfront
    subst hempty
    have hrest := (ByteText.slice?_eq_some (s := "" ++ t ++ back) (t := back) hle).2
      ⟨t, "", by simp, by simpa using hsize, by simp⟩
    rw [hu] at hrest
    cases hrest
    simp [join?]
  | _ => cases hn

/-- What a list or a string with so many positions answers to any text as its index. -/
structure PositionsRead (v : Value) (n : Nat) : Prop where
  /-- Every text gets a value or an index error. -/
  answered (key : String) : (∃ w, v.index (.string key) = .ok w) ∨ ∃ text, v.index (.string key) = .error (.index text)
  /-- Counting a position from the end does not overflow. -/
  no_overflow {cs : List Char} {i : Int} (hn : n < 2 ^ 63) (hi : Numeral cs i) (hneg : i < 0) :
    (Int64.ofNat n + Int64.ofInt i).toInt = n + i
  /-- What stands at a position is inside. -/
  element_inside {p q : Nat} {w : Value} (h : v.Stands p q w) : p < q ∧ q ≤ n
  /-- A part is inside. -/
  part_inside {p q : Nat} {w : Value} (h : v.Cut p q w) : p ≤ q ∧ q ≤ n
  /-- A key that is no slice is a numeral in the range of the length, and reads what stands at the place it means. -/
  single {key : String} {w : Value} (h : ¬Dotted key.toList) : v.index (.string key) = .ok w ↔
    ∃ i p q, Numeral key.toList i ∧ -n ≤ i ∧ i < n ∧ Resolves n i p ∧ v.Stands p q w
  /-- A slice reads the part between the places of its ends. -/
  slice {front back : List Char} {w : Value} (h : ¬Dotted (front ++ ['.'])) :
    v.index (.string (String.ofList (front ++ '.' :: '.' :: back))) = .ok w ↔
      ∃ p q, Ends n 0 front p ∧ Ends n n back q ∧ v.Cut p q w
  /-- What stands at a position is what the slice from there to the next one holds. -/
  alone {p q : Nat} {w : Value} {i j : Int} {a b : List Char} (h : v.Stands p q w) (ha : Numeral a i) (hi : Resolves n i p)
    (hb : Numeral b j) (hj : Resolves n j q) :
    v.index (.string (String.ofList (a ++ '.' :: '.' :: b))) = .ok (v.alone w)
  /-- The slice up to a place and the one from there on are there together. -/
  halves {key : String} (hne : key ≠ "") (h : ¬Dotted key.toList) :
    (∃ a, v.index (.string (".." ++ key)) = .ok a) ↔ ∃ b, v.index (.string (key ++ "..")) = .ok b
  /-- Two such slices make up the whole. -/
  joined {key : String} {a b : Value} (hne : key ≠ "") (h : ¬Dotted key.toList)
    (ha : v.index (.string (".." ++ key)) = .ok a) (hb : v.index (.string (key ++ "..")) = .ok b) : join? a b = some v

/-- A key without dots has the element at its position. -/
theorem index_single (hn : v.length? = some n) {key : String} (hsingle : ¬Dotted key.toList) :
    v.index (.string key) = .ok w ↔
    ∃ i p q, Numeral key.toList i ∧ -n ≤ i ∧ i < n ∧ Resolves n i p ∧ v.Stands p q w := by
  have hplace : v.index (.string key) = .ok w ↔ ∃ p, element key n = .ok p ∧ ∃ q, v.Stands p q w := by
    cases v with
    | list items =>
      cases hn
      exact indexList_single hsingle
    | string s =>
      cases hn
      exact indexString_single hsingle
    | _ => cases hn
  rw [hplace]
  constructor
  · rintro ⟨p, hp, q, hstands⟩
    obtain ⟨i, hi, hresolves, hlt⟩ := element_eq_ok.1 hp
    obtain ⟨hlow, hhigh⟩ := hresolves.lt_iff.1 hlt
    exact ⟨i, p, q, hi, hlow, hhigh, hresolves, hstands⟩
  · rintro ⟨i, p, q, hi, hlow, hhigh, hresolves, hstands⟩
    exact ⟨p, element_eq_ok.2 ⟨i, hi, hresolves, hresolves.lt_iff.2 ⟨hlow, hhigh⟩⟩, q, hstands⟩

/-- A key with dots has the part between its ends. -/
theorem index_slice (hn : v.length? = some n) {key : String} {front back : List Char}
    (hsplit : splitDots key.toList = some (front, back)) :
    v.index (.string key) = .ok w ↔ ∃ p q, Ends n 0 front p ∧ Ends n n back q ∧ v.Cut p q w := by
  cases v with
  | list items =>
    cases hn
    exact indexList_slice hsplit
  | string s =>
    cases hn
    exact indexString_slice hsplit
  | _ => cases hn

/-- A list or string that has nothing under a key refuses it as an index. -/
theorem index_refused (hn : v.length? = some n) {key : String} {c : Cause} (h : v.index (.string key) = .error c) :
    ∃ text, c = .index text := by
  cases v with
  | list items => exact indexList_refused h
  | string s => exact indexString_refused h
  | _ => cases hn

/-- The slice up to a key, which is not empty. -/
theorem index_upTo (hn : v.length? = some n) {key : String} (hne : key ≠ "") :
    v.index (.string (".." ++ key)) = .ok w ↔
      ∃ i q, Numeral key.toList i ∧ Resolves n i q ∧ q ≤ n ∧ v.Cut 0 q w := by
  have hsplit : splitDots (".." ++ key).toList = some ([], key.toList) :=
    splitDots_eq_some.2 ⟨by simp, not_dotted_of_no_dot List.not_mem_nil⟩
  have hkey : key.toList ≠ [] := fun h => hne (String.toList_eq_nil_iff.1 h)
  rw [index_slice hn hsplit]
  simp only [Ends, if_pos, if_neg hkey]
  constructor
  · rintro ⟨p, q, rfl, ⟨i, hi, hq, hle⟩, hcut⟩
    exact ⟨i, q, hi, hq, hle, hcut⟩
  · rintro ⟨i, q, hi, hq, hle, hcut⟩
    exact ⟨0, q, rfl, ⟨i, hi, hq, hle⟩, hcut⟩

/-- The slice from a key on, which is not empty and has no two adjacent dots. -/
theorem index_from (hn : v.length? = some n) {key : String} (hne : key ≠ "") (hsingle : ¬Dotted key.toList) :
    v.index (.string (key ++ "..")) = .ok w ↔
      ∃ i q, Numeral key.toList i ∧ Resolves n i q ∧ q ≤ n ∧ v.Cut q n w := by
  have hkey : key.toList ≠ [] := fun h => hne (String.toList_eq_nil_iff.1 h)
  by_cases hlast : Dotted (key.toList ++ ['.'])
  · -- the key ends in a dot, so the dots of the slice stand one place earlier: neither end is a numeral
    obtain ⟨front, hfront⟩ : ∃ front, key.toList = front ++ ['.'] := by
      rcases List.infix_concat_iff.1 hlast with ⟨front, hfront⟩ | hinfix
      · refine ⟨front, ?_⟩
        have hends : front ++ ['.'] ++ ['.'] = key.toList ++ ['.'] := by
          rw [← hfront]
          simp
        exact (List.append_cancel_right hends).symm
      · exact absurd hinfix hsingle
    have hsplit : splitDots (key ++ "..").toList = some (front, ['.']) :=
      splitDots_eq_some.2 ⟨by simp [hfront], hfront ▸ hsingle⟩
    rw [index_slice hn hsplit]
    constructor
    · rintro ⟨p, q, -, hq, -⟩
      simp only [Ends, List.cons_ne_nil, if_false] at hq
      obtain ⟨i, hi, -⟩ := hq
      exact absurd List.mem_cons_self hi.no_dot
    · rintro ⟨i, q, hi, -⟩
      rw [hfront] at hi
      exact absurd (by simp) hi.no_dot
  · have hsplit : splitDots (key ++ "..").toList = some (key.toList, []) := splitDots_eq_some.2 ⟨by simp, hlast⟩
    rw [index_slice hn hsplit]
    simp only [Ends, if_pos, if_neg hkey]
    constructor
    · rintro ⟨p, q, ⟨i, hi, hp, hle⟩, rfl, hcut⟩
      exact ⟨i, p, hi, hp, hle, hcut⟩
    · rintro ⟨i, q, hi, hq, hle, hcut⟩
      exact ⟨q, n, ⟨i, hi, hq, hle⟩, rfl, hcut⟩

/-- Every text indexes a list or a string as its numerals say, or is an index error. -/
theorem positions_read (v : Value) (n : Nat) (hn : v.length? = some n) : v.PositionsRead n where
  answered key := by
    cases h : v.index (.string key) with
    | ok w => exact .inl ⟨w, rfl⟩
    | error c =>
      obtain ⟨text, rfl⟩ := index_refused hn h
      exact .inr ⟨text, rfl⟩
  no_overflow hlength hi hneg := sum_exact hlength hi.range.1 hneg
  element_inside h := h.lt hn
  part_inside h := h.le hn
  single h := index_single hn h
  slice h := index_slice hn (splitDots_eq_some.2 ⟨String.toList_ofList, h⟩)
  alone {p q w i j a b} h ha hi hb hj := by
    obtain ⟨hpq, hq⟩ := h.lt hn
    have hsplit : splitDots (String.ofList (a ++ '.' :: '.' :: b)).toList = some (a, b) :=
      splitDots_eq_some.2 ⟨String.toList_ofList, not_dotted_of_no_dot ha.no_dot⟩
    refine (index_slice hn hsplit).2 ⟨p, q, ?_, ?_, h.cut⟩
    · rw [Ends, if_neg ha.ne_nil]
      exact ⟨i, ha, hi, by omega⟩
    · rw [Ends, if_neg hb.ne_nil]
      exact ⟨j, hb, hj, hq⟩
  halves {key} hne hsingle := by
    simp only [index_upTo hn hne, index_from hn hne hsingle]
    constructor
    · rintro ⟨a, i, q, hi, hq, hle, hcut⟩
      obtain ⟨b, hb⟩ := (cut_halves hn hle).1 ⟨a, hcut⟩
      exact ⟨b, i, q, hi, hq, hle, hb⟩
    · rintro ⟨b, i, q, hi, hq, hle, hcut⟩
      obtain ⟨a, ha⟩ := (cut_halves hn hle).2 ⟨b, hcut⟩
      exact ⟨a, i, q, hi, hq, hle, ha⟩
  joined {key a b} hne hsingle ha hb := by
    obtain ⟨i, q, hi, hq, -, ha⟩ := (index_upTo hn hne).1 ha
    obtain ⟨j, r, hj, hr, -, hb⟩ := (index_from hn hne hsingle).1 hb
    cases hi.unique hj
    cases hq.unique hr
    exact join?_halves hn ha hb

/-- The text has three bytes, and its second character two of them. -/
theorem positions_read_accented : (string "né").length? = some 3 ∧ (string "né").PositionsRead 3 := by
  have hlength : (string "né").length? = some 3 := by decide +kernel
  exact ⟨hlength, positions_read _ _ hlength⟩

end Value

end DualShell
