import Mathlib
import DualShell.Value.Index

/-!
# Positions in lists and strings

What a text means as a position and as a slice. A position is the numeral of a 64-bit integer (`Position.Numeral`); a
negative one counts from the end (`Position.Resolves`). A key with two adjacent dots is a slice, and its ends are the
texts around the first two of them (`Position.splitDots_eq_some`). `Position.element_eq_ok` and `Position.slice?_eq_ok`
say which keys mean what; every other one is an index error (`Position.element_refused`, `Position.slice?_refused`).
-/

namespace DualShell

namespace Position

/-! ## Numerals -/

/-- The text is that of an integer of 64 bits: decimal digits after an optional sign. -/
inductive Numeral : List Char → Int → Prop
  | unsigned {ds : List Char} (hne : ds ≠ []) (hds : ∀ c ∈ ds, c.isDigit) (hmax : Nat.ofDigitChars 10 ds 0 < 2 ^ 63) :
      Numeral ds (Nat.ofDigitChars 10 ds 0)
  | plus {ds : List Char} (hne : ds ≠ []) (hds : ∀ c ∈ ds, c.isDigit) (hmax : Nat.ofDigitChars 10 ds 0 < 2 ^ 63) :
      Numeral ('+' :: ds) (Nat.ofDigitChars 10 ds 0)
  | minus {ds : List Char} (hne : ds ≠ []) (hds : ∀ c ∈ ds, c.isDigit) (hmax : Nat.ofDigitChars 10 ds 0 ≤ 2 ^ 63) :
      Numeral ('-' :: ds) (-(Nat.ofDigitChars 10 ds 0 : Int))

/-- Digits are the number they spell. -/
theorem digits?_eq_some {cs : List Char} {n : Nat} :
    digits? cs = some n ↔ cs ≠ [] ∧ (∀ c ∈ cs, c.isDigit) ∧ Nat.ofDigitChars 10 cs 0 = n := by
  have hvalue : cs.foldl (fun n c => n * 10 + (c.toNat - 48)) 0 = Nat.ofDigitChars 10 cs 0 := by
    unfold Nat.ofDigitChars
    congr 1
    funext n c
    rw [Nat.mul_comm]
    rfl
  unfold digits?
  rw [hvalue]
  by_cases hcs : cs = []
  · simp [hcs]
  · by_cases hall : cs.all Char.isDigit = true
    · simp only [List.isEmpty_iff, hcs, hall, Bool.not_true, Bool.or_false, if_false, Option.some.injEq, ne_eq,
        not_false_eq_true, true_and]
      exact ⟨fun h => ⟨List.all_eq_true.1 hall, h⟩, fun h => h.2⟩
    · have hsome : ¬∀ c ∈ cs, c.isDigit = true := fun h => hall (List.all_eq_true.2 h)
      simp [hcs, hall, hsome]

/-- A digit is neither a sign nor a dot. -/
theorem ne_of_isDigit {c d : Char} (h : c.isDigit) (hd : d.isDigit = false) : c ≠ d := by
  rintro rfl
  exact Bool.false_ne_true (hd.symm.trans h)

/-- A numeral is the number it spells. -/
theorem parse?_eq_some {cs : List Char} {i : Int} : parse? cs = some i ↔ Numeral cs i := by
  constructor
  · intro h
    unfold parse? at h
    split at h <;> split at h <;> rename_i n hn <;> try cases h
    all_goals
      obtain ⟨hne, hds, rfl⟩ := digits?_eq_some.1 hn
      split at h <;> cases h
    · exact .minus hne hds ‹_›
    · exact .plus hne hds ‹_›
    · exact .unsigned hne hds ‹_›
  · intro h
    cases h with
    | unsigned hne hds hmax =>
      have hn := digits?_eq_some.2 ⟨hne, hds, rfl⟩
      have hfirst : ∀ d ∈ ['-', '+'], ∀ ds, cs ≠ d :: ds := by
        rintro d hd ds rfl
        have hdigit := hds d List.mem_cons_self
        have hnot : d.isDigit = false := by
          rcases List.mem_cons.1 hd with rfl | hd
          · rfl
          · cases List.mem_singleton.1 hd
            rfl
        exact ne_of_isDigit hdigit hnot rfl
      unfold parse?
      split
      · exact absurd rfl (hfirst '-' (by simp) _)
      · exact absurd rfl (hfirst '+' (by simp) _)
      · simpa [hn] using hmax
    | plus hne hds hmax => simpa [parse?, digits?_eq_some.2 ⟨hne, hds, rfl⟩] using hmax
    | minus hne hds hmax => simpa [parse?, digits?_eq_some.2 ⟨hne, hds, rfl⟩] using hmax

namespace Numeral

variable {cs : List Char} {i j : Int}

/-- A numeral spells one number. -/
theorem unique (h : Numeral cs i) (h' : Numeral cs j) : i = j :=
  Option.some.inj ((parse?_eq_some.2 h).symm.trans (parse?_eq_some.2 h'))

theorem ne_nil (h : Numeral cs i) : cs ≠ [] := by
  cases h with
  | unsigned hne => exact hne
  | plus | minus => exact List.cons_ne_nil _ _

/-- There is no dot in a numeral. -/
theorem no_dot (h : Numeral cs i) : '.' ∉ cs := by
  have hdigits : ∀ {ds : List Char}, (∀ c ∈ ds, c.isDigit) → '.' ∉ ds := fun hds hmem => ne_of_isDigit (hds _ hmem) rfl rfl
  cases h with
  | unsigned _ hds => exact hdigits hds
  | plus _ hds | minus _ hds =>
    intro hmem
    rcases List.mem_cons.1 hmem with heq | hmem
    · cases heq
    · exact hdigits hds hmem

/-- It is that of an integer of 64 bits. -/
theorem range (h : Numeral cs i) : -2 ^ 63 ≤ i ∧ i < 2 ^ 63 := by
  cases h with
  | unsigned _ _ hmax | plus _ _ hmax | minus _ _ hmax =>
    generalize Nat.ofDigitChars 10 _ 0 = n at hmax
    omega

end Numeral

/-! ## Counting from the end -/

/-- The integer means this place among so many: a negative one counts from the end. -/
def Resolves (length : Nat) (i : Int) (p : Nat) : Prop := (p : Int) = if i < 0 then length + i else i

/-- A position is counted from the start, or from the end if it is negative. -/
theorem fromStart?_eq_some {length : Nat} {i : Int} {p : Nat} : fromStart? length i = some p ↔ Resolves length i p := by
  unfold fromStart? Resolves
  dsimp only
  by_cases hi : i < 0
  · by_cases hp : (length : Int) + i < 0 <;> simp [hi, hp] <;> omega
  · simp [hi]
    omega

/-- A number resolves to one position. -/
theorem Resolves.unique {length : Nat} {i : Int} {p q : Nat} (h : Resolves length i p) (h' : Resolves length i q) : p = q :=
  Option.some.inj ((fromStart?_eq_some.2 h).symm.trans (fromStart?_eq_some.2 h'))

/-- An integer that means a place of an element lies in the range of the length, on both sides. -/
theorem Resolves.lt_iff {length : Nat} {i : Int} {p : Nat} (h : Resolves length i p) :
    p < length ↔ -length ≤ i ∧ i < length := by
  unfold Resolves at h
  split at h <;> omega

/-- Adding a negative position to a length does not leave the integers of 64 bits. -/
theorem sum_exact {length : Nat} {i : Int} (hlength : length < 2 ^ 63) (hi : -2 ^ 63 ≤ i) (hneg : i < 0) :
    (Int64.ofNat length + Int64.ofInt i).toInt = length + i := by
  rw [Int64.toInt_add, Int64.toInt_ofInt_of_le hi (by omega), Int64.toInt_ofNat_of_lt hlength]
  exact Int.bmod_eq_of_le (by omega) (by omega)

/-! ## One element -/

/-- A key stands for the position of an element if it is a numeral within bounds. -/
theorem element_eq_ok {key : String} {length p : Nat} :
    element key length = .ok p ↔ ∃ i, Numeral key.toList i ∧ Resolves length i p ∧ p < length := by
  unfold element
  constructor
  · intro h
    split at h
    · cases h
    · rename_i i hi
      split at h
      · rename_i q hq
        split at h <;> cases h
        exact ⟨i, parse?_eq_some.1 hi, fromStart?_eq_some.1 hq, ‹_›⟩
      · cases h
  · rintro ⟨i, hi, hp, hlt⟩
    simp [parse?_eq_some.2 hi, fromStart?_eq_some.2 hp, hlt]

/-- A key that stands for no element is refused as an index. -/
theorem element_refused {key : String} {length : Nat} {c : Cause} (h : element key length = .error c) :
    ∃ text, c = .index text := by
  unfold element at h
  split at h
  · cases h
    exact ⟨_, rfl⟩
  · split at h
    · split at h <;> cases h
      exact ⟨_, rfl⟩
    · cases h
      exact ⟨_, rfl⟩

/-! ## Slices -/

/-- Two adjacent dots are in the text. -/
def Dotted (cs : List Char) : Prop := ['.', '.'] <:+: cs

/-- Dots are looked for from the front. -/
theorem splitDots_cons {c : Char} {cs : List Char} (h : ∀ rest, c = '.' → cs ≠ '.' :: rest) :
    splitDots (c :: cs) = (splitDots cs).map fun p => (c :: p.1, p.2) := by
  rw [splitDots]
  · cases splitDots cs <;> rfl
  · exact h

/-- The first two adjacent dots stand between the parts, if there are any. -/
theorem splitDots_spec (cs : List Char) :
    (splitDots cs = none ∧ ¬Dotted cs) ∨
      ∃ front back, splitDots cs = some (front, back) ∧ cs = front ++ '.' :: '.' :: back ∧ ¬Dotted (front ++ ['.']) := by
  induction cs with
  | nil => exact .inl ⟨rfl, by simp [Dotted]⟩
  | cons c cs ih =>
    by_cases hdots : ∃ rest, c = '.' ∧ cs = '.' :: rest
    · obtain ⟨rest, rfl, rfl⟩ := hdots
      refine .inr ⟨[], rest, rfl, rfl, fun h => ?_⟩
      have hlength := h.length_le
      simp at hlength
    · have hnot : ∀ rest, c = '.' → cs ≠ '.' :: rest := fun rest hc hcs => hdots ⟨rest, hc, hcs⟩
      have hhead : ∀ ds, Dotted (c :: ds) → (∀ rest, c = '.' → ds ≠ '.' :: rest) → Dotted ds := by
        intro ds h hnot
        rcases List.infix_cons_iff.1 h with ⟨rest, hrest⟩ | h
        · cases hrest
          exact absurd rfl (hnot rest rfl)
        · exact h
      rw [splitDots_cons hnot]
      rcases ih with ⟨hnone, hundotted⟩ | ⟨front, back, hsome, rfl, hundotted⟩
      · exact .inl ⟨by rw [hnone]; rfl, fun h => hundotted (hhead cs h hnot)⟩
      · refine .inr ⟨c :: front, back, by rw [hsome]; rfl, rfl, fun h => hundotted (hhead _ h ?_)⟩
        rintro rest rfl hrest
        cases front with
        | nil => exact hnot _ rfl rfl
        | cons d front =>
          obtain ⟨rfl, -⟩ := List.cons.inj hrest
          exact hnot _ rfl rfl

/-- A text without two dots in a row is not split. -/
theorem splitDots_eq_none {cs : List Char} : splitDots cs = none ↔ ¬Dotted cs := by
  rcases splitDots_spec cs with ⟨hnone, hnot⟩ | ⟨front, back, hsome, rfl, -⟩
  · exact iff_of_true hnone hnot
  · rw [hsome]
    exact iff_of_false (fun h => nomatch h) (not_not.2 ⟨front, back, by simp⟩)

/-- The text before the first two adjacent dots, and the text after them. -/
theorem splitDots_eq_some {cs front back : List Char} :
    splitDots cs = some (front, back) ↔ cs = front ++ '.' :: '.' :: back ∧ ¬Dotted (front ++ ['.']) := by
  constructor
  · intro h
    rcases splitDots_spec cs with ⟨hnone, -⟩ | ⟨front', back', hsome, hcs, hnot⟩
    · rw [hnone] at h
      cases h
    · rw [hsome] at h
      cases h
      exact ⟨hcs, hnot⟩
  · rintro ⟨rfl, hnot⟩
    induction front with
    | nil => rfl
    | cons c front ih =>
      have hrest : ¬Dotted (front ++ ['.']) := fun h => hnot (h.trans (List.suffix_cons c _).isInfix)
      have hfirst : ∀ rest, c = '.' → front ++ '.' :: '.' :: back ≠ '.' :: rest := by
        rintro rest rfl heq
        refine hnot ?_
        cases front with
        | nil => exact List.infix_rfl
        | cons d front =>
          obtain ⟨rfl, -⟩ := List.cons.inj heq
          exact ⟨[], front ++ ['.'], rfl⟩
      rw [List.cons_append, splitDots_cons hfirst, ih hrest]
      rfl

/-- There are no two adjacent dots where there is no dot, and not either with one dot after it. -/
theorem not_dotted_of_no_dot {cs : List Char} (h : '.' ∉ cs) : ¬Dotted (cs ++ ['.']) := by
  rintro ⟨front, back, heq⟩
  have hcount := congrArg (List.count '.') heq
  simp [List.count_append, List.count_eq_zero.2 h] at hcount
  omega

/-- A numeral holds no dots. -/
theorem Numeral.not_dotted {cs : List Char} {i : Int} (h : Numeral cs i) : ¬Dotted cs :=
  fun hdots => not_dotted_of_no_dot h.no_dot (hdots.trans (List.prefix_append _ _).isInfix)

/-- The text at one end of a slice means this place; without text it is the default. -/
def Ends (length default : Nat) (cs : List Char) (p : Nat) : Prop :=
  if cs = [] then p = default else ∃ i, Numeral cs i ∧ Resolves length i p ∧ p ≤ length

/-- The end of a slice is a numeral within bounds, or what stands in for it. -/
theorem bound_eq_ok {key : String} {length default p : Nat} {cs : List Char} :
    bound key length default cs = .ok p ↔ Ends length default cs p := by
  unfold bound Ends
  by_cases hcs : cs = []
  · simp [hcs, eq_comm]
  · simp only [List.isEmpty_iff, hcs, if_false]
    constructor
    · intro h
      split at h
      · cases h
      · rename_i i hi
        split at h
        · rename_i q hq
          split at h <;> cases h
          exact ⟨i, parse?_eq_some.1 hi, fromStart?_eq_some.1 hq, ‹_›⟩
        · cases h
    · rintro ⟨i, hi, hp, hle⟩
      simp [parse?_eq_some.2 hi, fromStart?_eq_some.2 hp, hle]

/-- A slice has one end. -/
theorem Ends.unique {length default p q : Nat} {cs : List Char} (h : Ends length default cs p)
    (h' : Ends length default cs q) : p = q := by
  unfold Ends at h h'
  split at h
  · rename_i hcs
    rw [if_pos hcs] at h'
    exact h.trans h'.symm
  · rename_i hcs
    rw [if_neg hcs] at h'
    obtain ⟨i, hi, hp, -⟩ := h
    obtain ⟨j, hj, hq, -⟩ := h'
    exact (hi.unique hj ▸ hp).unique hq

/-- The end of a slice is within bounds. -/
theorem Ends.le {length default p : Nat} {cs : List Char} (h : Ends length default cs p) (hdefault : default ≤ length) :
    p ≤ length := by
  unfold Ends at h
  split at h
  · exact h ▸ hdefault
  · obtain ⟨-, -, -, hle⟩ := h
    exact hle

/-- An end that cannot be understood is refused as an index. -/
theorem bound_refused {key : String} {length default : Nat} {cs : List Char} {c : Cause}
    (h : bound key length default cs = .error c) : ∃ text, c = .index text := by
  unfold bound at h
  split at h
  · cases h
  · split at h
    · cases h
      exact ⟨_, rfl⟩
    · split at h
      · split at h <;> cases h
        exact ⟨_, rfl⟩
      · cases h
        exact ⟨_, rfl⟩

/-- A key without two adjacent dots is no slice. -/
theorem slice?_single {key : String} (h : ¬Dotted key.toList) (length : Nat) : slice? key length = .ok none := by
  unfold slice?
  rw [splitDots_eq_none.2 h]
  rfl

/-- The two ends of a slice are read one after the other, and then compared. -/
theorem slice?_split {key : String} {front back : List Char} (hsplit : splitDots key.toList = some (front, back))
    (length : Nat) :
    slice? key length = (bound key length 0 front).bind fun p => (bound key length length back).bind fun q =>
      if p ≤ q then .ok (some (p, q)) else .error (.index s!"inverted slice: {key}") := by
  unfold slice?
  rw [hsplit]
  dsimp only
  cases bound key length 0 front with
  | error c => rfl
  | ok p =>
    cases bound key length length back with
    | error c => rfl
    | ok q =>
      by_cases hle : p ≤ q
      · simp [bind, Except.bind, pure, Except.pure, hle, Nat.not_lt.2 hle]
      · simp [bind, Except.bind, throw, throwThe, MonadExceptOf.throw, hle, Nat.lt_of_not_le hle]

/-- A slice goes from the place of its first text up to that of the second, which is not before it. -/
theorem slice?_eq_ok {key : String} {front back : List Char} (hsplit : splitDots key.toList = some (front, back))
    {length : Nat} {range : Option (Nat × Nat)} : slice? key length = .ok range ↔
      ∃ p q, range = some (p, q) ∧ Ends length 0 front p ∧ Ends length length back q ∧ p ≤ q := by
  rw [slice?_split hsplit]
  constructor
  · intro h
    cases hfront : bound key length 0 front with
    | error c =>
      rw [hfront] at h
      cases h
    | ok p =>
      cases hback : bound key length length back with
      | error c =>
        rw [hfront, hback] at h
        cases h
      | ok q =>
        rw [hfront, hback] at h
        simp only [Except.bind] at h
        split at h <;> cases h
        exact ⟨p, q, rfl, bound_eq_ok.1 hfront, bound_eq_ok.1 hback, ‹_›⟩
  · rintro ⟨p, q, rfl, hp, hq, hle⟩
    rw [bound_eq_ok.2 hp, bound_eq_ok.2 hq]
    simp [Except.bind, hle]

/-- A slice that cannot be understood is refused as an index. -/
theorem slice?_refused {key : String} {length : Nat} {c : Cause} (h : slice? key length = .error c) :
    ∃ text, c = .index text := by
  cases hsplit : splitDots key.toList with
  | none =>
    rw [slice?_single (splitDots_eq_none.1 hsplit)] at h
    cases h
  | some parts =>
    rw [slice?_split hsplit] at h
    cases hfront : bound key length 0 parts.1 with
    | error d =>
      rw [hfront] at h
      cases h
      exact bound_refused hfront
    | ok p =>
      cases hback : bound key length length parts.2 with
      | error d =>
        rw [hfront, hback] at h
        cases h
        exact bound_refused hback
      | ok q =>
        rw [hfront, hback] at h
        simp only [Except.bind] at h
        split at h <;> cases h
        exact ⟨_, rfl⟩

end Position

end DualShell
