import Mathlib.Data.List.Basic
import DualShell.Proofs.Value.Equality
import DualShell.Value.Render

/-!
# Values as they are shown

A value of strings, booleans, lists and maps is shown as a text that tells where each of its parts ends: whatever the
text goes on with, it begins with no other such value (`Value.Determined`). One thing it does not tell is where the
equals sign between a key and its value stands, when both are words without quotes and one of them has such a sign in it
(`Value.PairLooksLike`).
-/

namespace DualShell

/-! ## Words and quotes -/

/-- Of two ways to cut a text before the first character that is not of a kind, there is one. -/
theorem ListAux.front_inj {α : Type} {p : α → Bool} {front front' rest rest' : List α} (hfront : ∀ c ∈ front, p c = true)
    (hfront' : ∀ c ∈ front', p c = true) (hrest : ∀ c ∈ rest.head?, p c = false) (hrest' : ∀ c ∈ rest'.head?, p c = false)
    (h : front ++ rest = front' ++ rest') : front = front' ∧ rest = rest' := by
  induction front generalizing front' with
  | nil =>
    cases front' with
    | nil => exact ⟨rfl, h⟩
    | cons c front' =>
      have hc : p c = false := hrest c (by rw [show rest = _ from h]; rfl)
      exact Bool.noConfusion ((hfront' c List.mem_cons_self).symm.trans hc)
  | cons c front ih =>
    obtain ⟨hc, hfront⟩ := List.forall_mem_cons.1 hfront
    cases front' with
    | nil =>
      have hc' : p c = false := hrest' c (by rw [show rest' = _ from h.symm]; rfl)
      exact Bool.noConfusion (hc.symm.trans hc')
    | cons c' front' =>
      obtain ⟨rfl, htail⟩ := List.cons.inj h
      obtain ⟨rfl, rfl⟩ := ih hfront (List.forall_mem_cons.1 hfront').2 htail
      exact ⟨rfl, rfl⟩

namespace Quoted

/-- Marks are not plain, but for the equals sign. -/
theorem isPlain_marks : isPlain ' ' = false ∧ isPlain '\'' = false ∧ isPlain '$' = false ∧ isPlain '[' = false ∧
    isPlain ']' = false ∧ isPlain '&' = false ∧ isPlain '=' = true := by
  decide +kernel

/-- A word is not empty, and has plain characters only. -/
theorem isWord_iff {s : String} : isWord s = true ↔ s ≠ "" ∧ ∀ c ∈ s.toList, isPlain c = true := by
  simp [isWord]

/-- A quote is doubled within quotes. -/
theorem doubled_cons (c : Char) (cs : List Char) :
    doubled (c :: cs) = (if c = '\'' then ['\'', '\''] else [c]) ++ doubled cs := by
  simp [doubled]

/-- Quoted texts end at the first quote that stands alone. -/
theorem doubled_append_inj {cs cs' rest rest' : List Char} (hrest : rest.head? ≠ some '\'')
    (hrest' : rest'.head? ≠ some '\'')
    (h : doubled cs ++ '\'' :: rest = doubled cs' ++ '\'' :: rest') : cs = cs' ∧ rest = rest' := by
  -- A text that ends at once is none that goes on: its quote would be followed by another one.
  have hends : ∀ {c : Char} {ds r r' : List Char}, r.head? ≠ some '\'' → '\'' :: r ≠ doubled (c :: ds) ++ '\'' :: r' := by
    intro c ds r r' hr heq
    rw [doubled_cons] at heq
    by_cases hc : c = '\''
    · rw [if_pos hc] at heq
      exact hr (by rw [(List.cons.inj heq).2]; rfl)
    · rw [if_neg hc] at heq
      exact hc (List.cons.inj heq).1.symm
  induction cs generalizing cs' with
  | nil =>
    cases cs' with
    | nil => exact ⟨rfl, (List.cons.inj h).2⟩
    | cons c cs' => exact absurd h (hends hrest)
  | cons c cs ih =>
    cases cs' with
    | nil => exact absurd h.symm (hends hrest')
    | cons c' cs' =>
      rw [doubled_cons, doubled_cons, List.append_assoc, List.append_assoc] at h
      have hsame : c = c' ∧ doubled cs ++ '\'' :: rest = doubled cs' ++ '\'' :: rest' := by
        by_cases hc : c = '\''
        · by_cases hc' : c' = '\''
          · rw [if_pos hc, if_pos hc'] at h
            exact ⟨hc.trans hc'.symm, List.append_cancel_left h⟩
          · rw [if_pos hc, if_neg hc'] at h
            exact absurd (List.cons.inj h).1.symm hc'
        · by_cases hc' : c' = '\''
          · rw [if_neg hc, if_pos hc'] at h
            exact absurd (List.cons.inj h).1 hc
          · rw [if_neg hc, if_neg hc'] at h
            exact List.cons.inj h
      obtain ⟨rfl, htail⟩ := hsame
      obtain ⟨rfl, rfl⟩ := ih htail
      exact ⟨rfl, rfl⟩

end Quoted

namespace Value

/-! ## Values that look alike -/

/-- A value of strings, booleans, lists and maps, at every depth. -/
inductive Literal : Value → Prop
  | string (s : String) : Literal (.string s)
  | bool (b : Bool) : Literal (.bool b)
  | list {items : List Value} (h : ∀ v ∈ items, Literal v) : Literal (.list items)
  | map {pairs : List (Value × Value)} (hk : ∀ p ∈ pairs, Literal p.1) (hv : ∀ p ∈ pairs, Literal p.2) : Literal (.map pairs)

/-- A value of this kind in which no key that is a word with an equals sign in it has a word as its value. -/
inductive Clear : Value → Prop
  | string (s : String) : Clear (.string s)
  | bool (b : Bool) : Clear (.bool b)
  | list {items : List Value} (h : ∀ v ∈ items, Clear v) : Clear (.list items)
  | map {pairs : List (Value × Value)}
      (hwords : ∀ k v : String, (.string k, .string v) ∈ pairs → Quoted.isWord k = true → Quoted.isWord v = true →
        '=' ∉ k.toList)
      (hk : ∀ p ∈ pairs, Clear p.1) (hv : ∀ p ∈ pairs, Clear p.2) : Clear (.map pairs)

mutual

/-- The values differ at most in where an equals sign ends a key. -/
inductive LooksLike : Value → Value → Prop
  | string (s : String) : LooksLike (.string s) (.string s)
  | bool (b : Bool) : LooksLike (.bool b) (.bool b)
  | list {vs ws : List Value} (h : ItemsLookLike vs ws) : LooksLike (.list vs) (.list ws)
  | map {ps qs : List (Value × Value)} (h : PairsLookLike ps qs) : LooksLike (.map ps) (.map qs)

inductive ItemsLookLike : List Value → List Value → Prop
  | nil : ItemsLookLike [] []
  | cons {v w : Value} {vs ws : List Value} (h : LooksLike v w) (hrest : ItemsLookLike vs ws) :
      ItemsLookLike (v :: vs) (w :: ws)

inductive PairLooksLike : Value × Value → Value × Value → Prop
  | apart {k v k' v' : Value} (hk : LooksLike k k') (hv : LooksLike v v') : PairLooksLike (k, v) (k', v')
  /-- Words with an equals sign between them, which may be the same text as other such words. -/
  | words {k v k' v' : String} (hk : Quoted.isWord k = true) (hv : Quoted.isWord v = true) (hk' : Quoted.isWord k' = true)
      (hv' : Quoted.isWord v' = true) (h : k ++ "=" ++ v = k' ++ "=" ++ v') :
      PairLooksLike (.string k, .string v) (.string k', .string v')

inductive PairsLookLike : List (Value × Value) → List (Value × Value) → Prop
  | nil : PairsLookLike [] []
  | cons {p q : Value × Value} {ps qs : List (Value × Value)} (h : PairLooksLike p q) (hrest : PairsLookLike ps qs) :
      PairsLookLike (p :: ps) (q :: qs)

end

/-! ## What is written -/

/-- The characters that a value is shown as. -/
def shown (v : Value) : List Char := v.repr.toList

/-- What follows the first item of a list. -/
def moreItems : List Value → List Char
  | [] => []
  | v :: vs => ' ' :: (v.shown ++ moreItems vs)

/-- A key, an equals sign and a value. -/
def shownPair (p : Value × Value) : List Char := p.1.shown ++ '=' :: p.2.shown

/-- What follows the first pair of a map. -/
def morePairs : List (Value × Value) → List Char
  | [] => []
  | p :: ps => ' ' :: '&' :: (shownPair p ++ morePairs ps)

theorem repr_string (s : String) : (Value.string s).repr = Quoted.word s := rfl

theorem repr_list (vs : List Value) : (Value.list vs).repr = "[" ++ " ".intercalate (reprItems vs) ++ "]" := rfl

theorem repr_map (p : Value × Value) (ps : List (Value × Value)) :
    (Value.map (p :: ps)).repr = "[" ++ " ".intercalate (reprPairs (p :: ps)) ++ "]" := rfl

theorem reprItems_cons (v : Value) (vs : List Value) : reprItems (v :: vs) = v.repr :: reprItems vs := rfl

theorem reprPairs_cons (p : Value × Value) (ps : List (Value × Value)) :
    reprPairs (p :: ps) = ("&" ++ p.1.repr ++ "=" ++ p.2.repr) :: reprPairs ps := rfl

/-- A word is shown as it is. -/
theorem shown_word {s : String} (h : Quoted.isWord s = true) : (Value.string s).shown = s.toList := by
  rw [shown, repr_string, Quoted.word, if_pos h]

/-- Any other string is shown in quotes. -/
theorem shown_quoted {s : String} (h : Quoted.isWord s = false) :
    (Value.string s).shown = '\'' :: (Quoted.doubled s.toList ++ ['\'']) := by
  simp [shown, repr_string, Quoted.word, h, Quoted.single]

theorem shown_bool (b : Bool) : (Value.bool b).shown = '$' :: (if b then "true" else "false").toList := by
  cases b <;> decide +kernel

/-- Items are shown with blanks between them. -/
theorem shown_items (v : Value) (vs : List Value) :
    (" ".intercalate (reprItems (v :: vs))).toList = v.shown ++ moreItems vs := by
  induction vs generalizing v with
  | nil => simp [reprItems, moreItems, shown]
  | cons w ws ih =>
    have hrest := ih w
    rw [reprItems_cons] at hrest
    rw [reprItems_cons, reprItems_cons, String.intercalate_cons_cons, String.toList_append, String.toList_append,
      hrest, moreItems]
    simp [shown]

theorem shown_nil : (Value.list []).shown = ['[', ']'] := by decide +kernel

theorem shown_cons (v : Value) (vs : List Value) :
    (Value.list (v :: vs)).shown = '[' :: (v.shown ++ moreItems vs ++ [']']) := by
  rw [shown, repr_list, String.toList_append, String.toList_append, shown_items]
  rfl

/-- Pairs are shown with blanks between them. -/
theorem shown_pairs (p : Value × Value) (ps : List (Value × Value)) :
    (" ".intercalate (reprPairs (p :: ps))).toList = '&' :: (shownPair p ++ morePairs ps) := by
  induction ps generalizing p with
  | nil => simp [reprPairs, morePairs, shownPair, shown]
  | cons q qs ih =>
    have hrest := ih q
    rw [reprPairs_cons] at hrest
    rw [reprPairs_cons, reprPairs_cons, String.intercalate_cons_cons, String.toList_append, String.toList_append,
      hrest, morePairs]
    simp [shownPair, shown]

theorem shown_empty : (Value.map []).shown = ['[', '&', ']'] := by decide +kernel

theorem shown_map (p : Value × Value) (ps : List (Value × Value)) :
    (Value.map (p :: ps)).shown = '[' :: '&' :: (shownPair p ++ morePairs ps ++ [']']) := by
  rw [shown, repr_map, String.toList_append, String.toList_append, shown_pairs]
  rfl

/-! ## Reading it back -/

/-- How what is shown begins. -/
inductive Opens : Value → Char → Prop
  | word {s : String} {c : Char} (hs : Quoted.isWord s = true) (hc : Quoted.isPlain c = true) : Opens (.string s) c
  | quoted {s : String} (hs : Quoted.isWord s = false) : Opens (.string s) '\''
  | bool (b : Bool) : Opens (.bool b) '$'
  | list (vs : List Value) : Opens (.list vs) '['
  | map (ps : List (Value × Value)) : Opens (.map ps) '['

/-- Every literal begins with a character that tells its kind. -/
theorem Literal.opens {v : Value} (h : v.Literal) : ∃ c rest, v.shown = c :: rest ∧ v.Opens c := by
  cases h with
  | string s =>
    cases hs : Quoted.isWord s with
    | false => exact ⟨_, _, shown_quoted hs, .quoted hs⟩
    | true =>
      obtain ⟨hne, hplain⟩ := Quoted.isWord_iff.1 hs
      cases hcs : s.toList with
      | nil => exact absurd (String.toList_eq_nil_iff.1 hcs) hne
      | cons c cs => exact ⟨c, cs, (shown_word hs).trans hcs, .word hs (hplain c (hcs ▸ List.mem_cons_self))⟩
  | bool b => exact ⟨_, _, shown_bool b, .bool b⟩
  | @list items h =>
    cases items with
    | nil => exact ⟨_, _, shown_nil, .list _⟩
    | cons v vs => exact ⟨_, _, shown_cons v vs, .list _⟩
  | @map pairs hk hv =>
    cases pairs with
    | nil => exact ⟨_, _, shown_empty, .map _⟩
    | cons p ps => exact ⟨_, _, shown_map p ps, .map _⟩

/-- Literals that are shown alike begin alike. -/
theorem Literal.opens_same {v w : Value} {rest rest' : List Char} (hv : v.Literal) (hw : w.Literal)
    (h : v.shown ++ rest = w.shown ++ rest') : ∃ c, v.Opens c ∧ w.Opens c := by
  obtain ⟨c, more, hshown, hopens⟩ := hv.opens
  obtain ⟨c', more', hshown', hopens'⟩ := hw.opens
  rw [hshown, hshown'] at h
  obtain rfl : c = c' := (List.cons.inj h).1
  exact ⟨c, hopens, hopens'⟩

/-- What is shown begins with no blank, no bracket that closes and no sign of a key. -/
theorem Opens.ne {v : Value} {c : Char} (h : v.Opens c) : c ≠ ' ' ∧ c ≠ ']' ∧ c ≠ '&' := by
  obtain ⟨hblank, -, -, -, hclose, hkey, -⟩ := Quoted.isPlain_marks
  cases h with
  | word hs hc =>
    refine ⟨?_, ?_, ?_⟩ <;> rintro rfl
    · exact Bool.noConfusion (hc.symm.trans hblank)
    · exact Bool.noConfusion (hc.symm.trans hclose)
    · exact Bool.noConfusion (hc.symm.trans hkey)
  | quoted | bool | list | map => decide

/-- The value ends where the rest begins: the rest does not go on with its quote or its word. -/
structure Stops (v : Value) (rest : List Char) : Prop where
  quote : rest.head? ≠ some '\''
  word : ∀ s, v = .string s → Quoted.isWord s = true → ∀ c ∈ rest.head?, Quoted.isPlain c = false

/-- Nothing is left, or what is left begins with a blank or a bracket that closes. -/
def Closes (rest : List Char) : Prop := ∀ c ∈ rest.head?, c = ' ' ∨ c = ']'

/-- What closes a literal is no part of it. -/
theorem Closes.stops {rest : List Char} (h : Closes rest) (v : Value) : v.Stops rest := by
  obtain ⟨hblank, -, -, -, hclose, -⟩ := Quoted.isPlain_marks
  constructor
  · intro hquote
    obtain hc | hc := h '\'' hquote
    · exact absurd hc (by decide)
    · exact absurd hc (by decide)
  · intro s _ _ c hc
    obtain rfl | rfl := h c hc
    · exact hblank
    · exact hclose

theorem closes_nil : Closes [] := by
  intro c hc
  nomatch hc

theorem closes_bracket (rest : List Char) : Closes (']' :: rest) := by
  intro c hc
  cases hc
  exact .inr rfl

theorem closes_moreItems (vs : List Value) (rest : List Char) : Closes (moreItems vs ++ ']' :: rest) := by
  cases vs with
  | nil => exact closes_bracket rest
  | cons v vs =>
    intro c hc
    cases hc
    exact .inl rfl

theorem closes_morePairs (ps : List (Value × Value)) (rest : List Char) : Closes (morePairs ps ++ ']' :: rest) := by
  cases ps with
  | nil => exact closes_bracket rest
  | cons p ps =>
    intro c hc
    cases hc
    exact .inl rfl

/-- What is shown does not begin like an end. -/
theorem Literal.not_closes {v : Value} (hv : v.Literal) (rest : List Char) : ¬ Closes (v.shown ++ rest) := by
  intro h
  obtain ⟨c, more, hshown, hopens⟩ := hv.opens
  obtain hc | hc := h c (by rw [hshown]; rfl)
  · exact hopens.ne.1 hc
  · exact hopens.ne.2.1 hc

/-- No literal begins with a bracket that closes. -/
theorem Literal.ne_bracket {v : Value} (hv : v.Literal) (rest more : List Char) : v.shown ++ rest ≠ ']' :: more := fun h =>
  hv.not_closes rest (h ▸ closes_bracket more)

/-- A text that begins with the value shows no value that does not look like it, and tells where it ends. -/
def Determined (v : Value) : Prop :=
  ∀ {w : Value} {rest rest' : List Char}, w.Literal → v.Stops rest → w.Stops rest' → v.shown ++ rest = w.shown ++ rest' →
    v.LooksLike w ∧ rest = rest'

/-- A string is told by what is shown, up to what stops it. -/
theorem determined_string (s : String) : (Value.string s).Determined := by
  obtain ⟨-, hquote, hdollar, hopen, -⟩ := Quoted.isPlain_marks
  intro w rest rest' hw hstops hstops' h
  obtain ⟨c, hopens, hopens'⟩ := (Literal.string s).opens_same hw h
  cases hopens with
  | word hs hc =>
    cases hopens' with
    | @word t _ ht _ =>
      rw [shown_word hs, shown_word ht] at h
      obtain ⟨heq, hrest⟩ := ListAux.front_inj (Quoted.isWord_iff.1 hs).2 (Quoted.isWord_iff.1 ht).2 (hstops.word s rfl hs)
        (hstops'.word t rfl ht) h
      obtain rfl := String.toList_injective heq
      exact ⟨.string s, hrest⟩
    | quoted => exact absurd hc (by simp [hquote])
    | bool => exact absurd hc (by simp [hdollar])
    | list | map => exact absurd hc (by simp [hopen])
  | quoted hs =>
    cases hopens' with
    | word ht hc => exact absurd hc (by simp [hquote])
    | @quoted t ht =>
      rw [shown_quoted hs, shown_quoted ht] at h
      simp only [List.cons_append, List.append_assoc, List.nil_append] at h
      obtain ⟨heq, hrest⟩ := Quoted.doubled_append_inj hstops.quote hstops'.quote (List.cons.inj h).2
      obtain rfl := String.toList_injective heq
      exact ⟨.string s, hrest⟩

/-- A truth value is told by what is shown. -/
theorem determined_bool (b : Bool) : (Value.bool b).Determined := by
  obtain ⟨-, -, hdollar, -⟩ := Quoted.isPlain_marks
  intro w rest rest' hw _ _ h
  obtain ⟨c, hopens, hopens'⟩ := (Literal.bool b).opens_same hw h
  cases hopens
  cases hopens' with
  | word _ hc => exact absurd hc (by simp [hdollar])
  | bool b' =>
    cases b <;> cases b' <;> simp [shown_bool] at h
    · exact ⟨.bool false, h⟩
    · exact ⟨.bool true, h⟩

/-- Items are told by what is shown if each is. -/
theorem determined_moreItems {vs ws : List Value} {rest rest' : List Char} (hvs : ∀ v ∈ vs, v.Determined)
    (hws : ∀ w ∈ ws, w.Literal)
    (h : moreItems vs ++ ']' :: rest = moreItems ws ++ ']' :: rest') : ItemsLookLike vs ws ∧ rest = rest' := by
  induction vs generalizing ws with
  | nil =>
    cases ws with
    | nil => exact ⟨.nil, (List.cons.inj h).2⟩
    | cons w ws => nomatch (List.cons.inj h).1
  | cons v vs ih =>
    cases ws with
    | nil => nomatch (List.cons.inj h).1
    | cons w ws =>
      obtain ⟨hv, hvs⟩ := List.forall_mem_cons.1 hvs
      obtain ⟨hw, hws⟩ := List.forall_mem_cons.1 hws
      simp only [moreItems, List.cons_append, List.append_assoc, List.cons.injEq, true_and] at h
      obtain ⟨hlike, hrest⟩ := hv hw ((closes_moreItems vs rest).stops v) ((closes_moreItems ws rest').stops w) h
      obtain ⟨hlikes, hend⟩ := ih hvs hws hrest
      exact ⟨.cons hlike hlikes, hend⟩

/-- A list is told by what is shown if its items are. -/
theorem determined_list {vs ws : List Value} {rest rest' : List Char} (hvs : ∀ v ∈ vs, v.Determined)
    (hliteral : ∀ v ∈ vs, v.Literal)
    (hws : ∀ w ∈ ws, w.Literal) (h : (Value.list vs).shown ++ rest = (Value.list ws).shown ++ rest') :
    ItemsLookLike vs ws ∧ rest = rest' := by
  cases vs with
  | nil =>
    cases ws with
    | nil => exact ⟨.nil, List.append_cancel_left h⟩
    | cons w ws =>
      simp only [shown_nil, shown_cons, List.cons_append, List.nil_append, List.append_assoc, List.cons.injEq, true_and] at h
      exact absurd h.symm ((hws w List.mem_cons_self).ne_bracket _ _)
  | cons v vs =>
    cases ws with
    | nil =>
      simp only [shown_nil, shown_cons, List.cons_append, List.nil_append, List.append_assoc, List.cons.injEq, true_and] at h
      exact absurd h ((hliteral v List.mem_cons_self).ne_bracket _ _)
    | cons w ws =>
      -- The first items are shown like the others, without the blank in front.
      have hmore : moreItems (v :: vs) ++ ']' :: rest = moreItems (w :: ws) ++ ']' :: rest' := by
        simp only [shown_cons, List.cons_append, List.nil_append, List.append_assoc, List.cons.injEq, true_and] at h
        simp only [moreItems, List.cons_append, List.append_assoc, h]
      exact determined_moreItems hvs hws hmore

/-- A word without quotes. -/
def IsWord (v : Value) : Prop := ∃ s, v = .string s ∧ Quoted.isWord s = true

/-- A literal begins with a plain character if it is a word. -/
theorem Opens.isPlain_iff {v : Value} {c : Char} (h : v.Opens c) : Quoted.isPlain c = true ↔ v.IsWord := by
  obtain ⟨-, hquote, hdollar, hopen, -⟩ := Quoted.isPlain_marks
  cases h with
  | word hs hc => exact ⟨fun _ => ⟨_, rfl, hs⟩, fun _ => hc⟩
  | quoted hs =>
    rw [hquote]
    refine ⟨nofun, ?_⟩
    rintro ⟨s, heq, hword⟩
    cases heq
    rw [hs] at hword
    nomatch hword
  | bool =>
    rw [hdollar]
    exact ⟨nofun, nofun⟩
  | list | map =>
    rw [hopen]
    exact ⟨nofun, nofun⟩

/-- Where a value that is no word follows a key that is a word, the plain characters end; else they go on to the end of
the value. -/
theorem Literal.run {v : Value} (hv : v.Literal) {rest : List Char} (hrest : Closes rest) :
    ∃ run more, v.shown ++ rest = run ++ more ∧ (∀ c ∈ run, Quoted.isPlain c = true) ∧
    (∀ c ∈ more.head?, Quoted.isPlain c = false) ∧
      ((∃ s, v = .string s ∧ Quoted.isWord s = true ∧ run = s.toList ∧ more = rest) ∨
        (run = [] ∧ more = v.shown ++ rest)) := by
  by_cases hword : v.IsWord
  · obtain ⟨s, rfl, hs⟩ := hword
    exact ⟨s.toList, rest, by rw [shown_word hs], (Quoted.isWord_iff.1 hs).2, (hrest.stops (.string s)).word s rfl hs,
      .inl ⟨s, rfl, hs, rfl, rfl⟩⟩
  · refine ⟨[], v.shown ++ rest, rfl, nofun, ?_, .inr ⟨rfl, rfl⟩⟩
    intro c hc
    obtain ⟨d, more, hshown, hopens⟩ := hv.opens
    rw [hshown] at hc
    cases hc
    exact Bool.eq_false_iff.2 fun hplain => hword (hopens.isPlain_iff.1 hplain)

/-- A pair is told from others by its text, but for where an equals sign stands between words. -/
theorem determined_pair {p q : Value × Value} {rest rest' : List Char} (hk : p.1.Determined) (hv : p.2.Determined)
    (hkl : p.1.Literal)
    (hvl : p.2.Literal) (hkl' : q.1.Literal) (hvl' : q.2.Literal) (hrest : Closes rest) (hrest' : Closes rest')
    (h : shownPair p ++ rest = shownPair q ++ rest') : PairLooksLike p q ∧ rest = rest' := by
  obtain ⟨k, v⟩ := p
  obtain ⟨k', v'⟩ := q
  obtain ⟨-, -, -, -, -, -, hequals⟩ := Quoted.isPlain_marks
  simp only [shownPair, List.append_assoc, List.cons_append] at h
  have hheads : k.IsWord ↔ k'.IsWord := by
    obtain ⟨c, hopens, hopens'⟩ := hkl.opens_same hkl' h
    rw [← hopens.isPlain_iff, ← hopens'.isPlain_iff]
  by_cases hword : k.IsWord
  · obtain ⟨s', rfl, hs'⟩ := hheads.1 hword
    obtain ⟨s, rfl, hs⟩ := hword
    obtain ⟨run, more, hshown, hrun, hmore, hcase⟩ := hvl.run hrest
    obtain ⟨run', more', hshown', hrun', hmore', hcase'⟩ := hvl'.run hrest'
    -- The plain characters of the key, the equals sign and the plain characters after it are one text.
    have hfront : ∀ {k : String} {run : List Char}, Quoted.isWord k = true → (∀ c ∈ run, Quoted.isPlain c = true) →
        ∀ c ∈ k.toList ++ '=' :: run, Quoted.isPlain c = true := by
      intro k run hk hrun c hc
      obtain hc | hc := List.mem_append.1 hc
      · exact (Quoted.isWord_iff.1 hk).2 c hc
      · obtain rfl | hc := List.mem_cons.1 hc
        · exact hequals
        · exact hrun c hc
    rw [shown_word hs, shown_word hs', hshown, hshown', ← List.cons_append, ← List.cons_append, ← List.append_assoc,
      ← List.append_assoc] at h
    obtain ⟨hsame, hends⟩ := ListAux.front_inj (hfront hs hrun) (hfront hs' hrun') hmore hmore' h
    obtain ⟨t, rfl, ht, rfl, rfl⟩ | ⟨rfl, rfl⟩ := hcase
    · obtain ⟨t', rfl, ht', rfl, rfl⟩ | ⟨rfl, rfl⟩ := hcase'
      · exact ⟨.words hs ht hs' ht' (String.toList_injective (by simpa using hsame)), hends⟩
      · exact absurd (hends ▸ hrest) (hvl'.not_closes rest')
    · obtain ⟨t', rfl, ht', rfl, rfl⟩ | ⟨rfl, rfl⟩ := hcase'
      · exact absurd (hends.symm ▸ hrest') (hvl.not_closes rest)
      · obtain rfl := String.toList_injective (List.append_cancel_right hsame)
        obtain ⟨hlike, hend⟩ := hv hvl' (hrest.stops v) (hrest'.stops v') hends
        exact ⟨.apart (.string s) hlike, hend⟩
  · have hstops : ∀ {k : Value} (tail : List Char), ¬ k.IsWord → k.Stops ('=' :: tail) := by
      intro k tail hk
      exact ⟨nofun, fun s hs hsword => absurd ⟨s, hs, hsword⟩ hk⟩
    obtain ⟨hlike, htail⟩ := hk hkl' (hstops _ hword) (hstops _ fun h => hword (hheads.2 h)) h
    obtain ⟨hlikes, hend⟩ := hv hvl' (hrest.stops v) (hrest'.stops v') (List.cons.inj htail).2
    exact ⟨.apart hlike hlikes, hend⟩

/-- Pairs are told by what is shown if their keys and values are. -/
theorem determined_morePairs {ps qs : List (Value × Value)} {rest rest' : List Char} (hk : ∀ p ∈ ps, p.1.Determined)
    (hv : ∀ p ∈ ps, p.2.Determined) (hps : ∀ p ∈ ps, p.1.Literal ∧ p.2.Literal) (hqs : ∀ q ∈ qs, q.1.Literal ∧ q.2.Literal)
    (h : morePairs ps ++ ']' :: rest = morePairs qs ++ ']' :: rest') : PairsLookLike ps qs ∧ rest = rest' := by
  induction ps generalizing qs with
  | nil =>
    cases qs with
    | nil => exact ⟨.nil, (List.cons.inj h).2⟩
    | cons q qs => nomatch (List.cons.inj h).1
  | cons p ps ih =>
    cases qs with
    | nil => nomatch (List.cons.inj h).1
    | cons q qs =>
      obtain ⟨hkey, hk⟩ := List.forall_mem_cons.1 hk
      obtain ⟨hvalue, hv⟩ := List.forall_mem_cons.1 hv
      obtain ⟨⟨hkl, hvl⟩, hps⟩ := List.forall_mem_cons.1 hps
      obtain ⟨⟨hkl', hvl'⟩, hqs⟩ := List.forall_mem_cons.1 hqs
      simp only [morePairs, List.cons_append, List.append_assoc, List.cons.injEq, true_and] at h
      obtain ⟨hlike, hrest⟩ :=
        determined_pair hkey hvalue hkl hvl hkl' hvl' (closes_morePairs ps rest) (closes_morePairs qs rest') h
      obtain ⟨hlikes, hend⟩ := ih hk hv hps hqs hrest
      exact ⟨.cons hlike hlikes, hend⟩

/-- A map is told by what is shown if its pairs are. -/
theorem determined_map {ps qs : List (Value × Value)} {rest rest' : List Char} (hk : ∀ p ∈ ps, p.1.Determined)
    (hv : ∀ p ∈ ps, p.2.Determined) (hps : ∀ p ∈ ps, p.1.Literal ∧ p.2.Literal) (hqs : ∀ q ∈ qs, q.1.Literal ∧ q.2.Literal)
    (h : (Value.map ps).shown ++ rest = (Value.map qs).shown ++ rest') : PairsLookLike ps qs ∧ rest = rest' := by
  cases ps with
  | nil =>
    cases qs with
    | nil => exact ⟨.nil, List.append_cancel_left h⟩
    | cons q qs =>
      simp only [shown_empty, shown_map, shownPair, List.cons_append, List.nil_append, List.append_assoc,
        List.cons.injEq, true_and] at h
      exact absurd h.symm ((hqs q List.mem_cons_self).1.ne_bracket _ _)
  | cons p ps =>
    cases qs with
    | nil =>
      simp only [shown_empty, shown_map, shownPair, List.cons_append, List.nil_append, List.append_assoc,
        List.cons.injEq, true_and] at h
      exact absurd h ((hps p List.mem_cons_self).1.ne_bracket _ _)
    | cons q qs =>
      have hmore : morePairs (p :: ps) ++ ']' :: rest = morePairs (q :: qs) ++ ']' :: rest' := by
        simp only [shown_map, List.cons_append, List.nil_append, List.append_assoc, List.cons.injEq, true_and] at h
        simp only [morePairs, List.cons_append, List.append_assoc, h]
      exact determined_morePairs hk hv hps hqs hmore

/-- The list and the map are told apart by what follows the bracket. -/
theorem list_ne_map {vs : List Value} {ps : List (Value × Value)} {rest rest' : List Char} (hvs : ∀ v ∈ vs, v.Literal) :
    (Value.list vs).shown ++ rest ≠ (Value.map ps).shown ++ rest' := by
  intro h
  have hmap : ∃ more, (Value.map ps).shown = '[' :: '&' :: more := by
    cases ps with
    | nil => exact ⟨_, shown_empty⟩
    | cons p ps => exact ⟨_, shown_map p ps⟩
  obtain ⟨more, hmap⟩ := hmap
  rw [hmap] at h
  cases vs with
  | nil =>
    simp only [shown_nil, List.cons_append, List.cons.injEq, true_and] at h
    nomatch h.1
  | cons v vs =>
    obtain ⟨c, _, hshown, hopens⟩ := (hvs v List.mem_cons_self).opens
    simp only [shown_cons, hshown, List.cons_append, List.cons.injEq, true_and] at h
    exact hopens.ne.2.2 h.1

/-- Every literal is told by what is shown, up to looking alike. -/
theorem Literal.determined {v : Value} (hv : v.Literal) : v.Determined := by
  obtain ⟨-, -, -, hopen, -⟩ := Quoted.isPlain_marks
  induction hv with
  | string s => exact determined_string s
  | bool b => exact determined_bool b
  | @list items hitems ih =>
    intro w rest rest' hw _ _ h
    obtain ⟨c, hopens, hopens'⟩ := (Literal.list hitems).opens_same hw h
    cases hopens
    cases hopens' with
    | word _ hc => exact absurd hc (by simp [hopen])
    | list ws =>
      cases hw with
      | list hws =>
        obtain ⟨hlikes, hend⟩ := determined_list ih hitems hws h
        exact ⟨.list hlikes, hend⟩
    | map => exact absurd h (list_ne_map hitems)
  | @map pairs hk hv ihk ihv =>
    intro w rest rest' hw _ _ h
    obtain ⟨c, hopens, hopens'⟩ := (Literal.map hk hv).opens_same hw h
    cases hopens
    cases hopens' with
    | word _ hc => exact absurd hc (by simp [hopen])
    | list ws =>
      cases hw with
      | list hws => exact absurd h.symm (list_ne_map hws)
    | map qs =>
      cases hw with
      | map hk' hv' =>
        obtain ⟨hlikes, hend⟩ := determined_map ihk ihv (fun p hp => ⟨hk p hp, hv p hp⟩) (fun q hq => ⟨hk' q hq, hv' q hq⟩) h
        exact ⟨.map hlikes, hend⟩

/-! ## Values told apart -/

mutual

/-- Values that look alike are shown alike. -/
theorem LooksLike.shown_eq {v w : Value} (h : LooksLike v w) : v.shown = w.shown := by
  cases h with
  | string s => rfl
  | bool b => rfl
  | list h =>
    cases h with
    | nil => rfl
    | cons h hrest => rw [shown_cons, shown_cons, h.shown_eq, hrest.moreItems_eq]
  | map h =>
    cases h with
    | nil => rfl
    | cons h hrest => rw [shown_map, shown_map, h.shownPair_eq, hrest.morePairs_eq]

/-- Items that look alike are shown alike. -/
theorem ItemsLookLike.moreItems_eq {vs ws : List Value} (h : ItemsLookLike vs ws) : moreItems vs = moreItems ws := by
  cases h with
  | nil => rfl
  | cons h hrest => rw [moreItems, moreItems, h.shown_eq, hrest.moreItems_eq]

/-- Pairs that look alike are shown alike. -/
theorem PairLooksLike.shownPair_eq {p q : Value × Value} (h : PairLooksLike p q) : shownPair p = shownPair q := by
  cases h with
  | apart hk hv => rw [shownPair, shownPair, hk.shown_eq, hv.shown_eq]
  | words hk hv hk' hv' h =>
    have hchars := congrArg String.toList h
    simp only [String.toList_append, List.append_assoc] at hchars
    rw [shownPair, shownPair, shown_word hk, shown_word hv, shown_word hk', shown_word hv']
    exact hchars

theorem PairsLookLike.morePairs_eq {ps qs : List (Value × Value)} (h : PairsLookLike ps qs) :
    morePairs ps = morePairs qs := by
  cases h with
  | nil => rfl
  | cons h hrest => rw [morePairs, morePairs, h.shownPair_eq, hrest.morePairs_eq]

end

/-- Literals are shown alike if they look alike. -/
theorem Literal.repr_eq_iff {v w : Value} (hv : v.Literal) (hw : w.Literal) : v.repr = w.repr ↔ v.LooksLike w := by
  constructor
  · intro h
    have hshown : v.shown ++ [] = w.shown ++ [] := by rw [shown, shown, h]
    exact (hv.determined hw (closes_nil.stops v) (closes_nil.stops w) hshown).1
  · intro h
    exact String.toList_injective h.shown_eq

/-- What `Clear` asks of a pair of a map. -/
structure ClearPair (p : Value × Value) : Prop where
  words : ∀ k v : String, p = (.string k, .string v) → Quoted.isWord k = true → Quoted.isWord v = true → '=' ∉ k.toList
  key : Clear p.1
  value : Clear p.2

/-- Pairs are clear if no plain key with an equals sign has a plain value. -/
theorem clearPair {pairs : List (Value × Value)}
    (hwords : ∀ k v : String, (.string k, .string v) ∈ pairs → Quoted.isWord k = true → Quoted.isWord v = true →
      '=' ∉ k.toList)
    (hk : ∀ p ∈ pairs, Clear p.1) (hv : ∀ p ∈ pairs, Clear p.2) : ∀ p ∈ pairs, ClearPair p := by
  intro p hp
  refine ⟨?_, hk p hp, hv p hp⟩
  rintro k v rfl
  exact hwords k v hp

mutual

/-- Where no word is a key with an equals sign and has a word as its value, values that look alike are the same. -/
theorem LooksLike.eq_of_clear {v w : Value} (h : LooksLike v w) (hv : v.Clear) (hw : w.Clear) : v = w := by
  cases h with
  | string s => rfl
  | bool b => rfl
  | list h =>
    cases hv with
    | list hv =>
      cases hw with
      | list hw => rw [h.eq_of_clear hv hw]
  | map h =>
    cases hv with
    | map hwords hk hv =>
      cases hw with
      | map hwords' hk' hv' => rw [h.eq_of_clear (clearPair hwords hk hv) (clearPair hwords' hk' hv')]

/-- Clear items that look alike are the same. -/
theorem ItemsLookLike.eq_of_clear {vs ws : List Value} (h : ItemsLookLike vs ws) (hvs : ∀ v ∈ vs, v.Clear)
    (hws : ∀ w ∈ ws, w.Clear) : vs = ws := by
  cases h with
  | nil => rfl
  | cons h hrest =>
    obtain ⟨hv, hvs⟩ := List.forall_mem_cons.1 hvs
    obtain ⟨hw, hws⟩ := List.forall_mem_cons.1 hws
    rw [h.eq_of_clear hv hw, hrest.eq_of_clear hvs hws]

/-- Clear pairs that look alike are the same. -/
theorem PairLooksLike.eq_of_clear {p q : Value × Value} (h : PairLooksLike p q) (hp : ClearPair p) (hq : ClearPair q) :
    p = q := by
  cases h with
  | apart hk hv => rw [hk.eq_of_clear hp.key hq.key, hv.eq_of_clear hp.value hq.value]
  | @words k v k' v' hk hv hk' hv' h =>
    -- Neither key has an equals sign, so both end at the first one of the text.
    have hkey : ∀ {s : String}, '=' ∉ s.toList → ∀ c ∈ s.toList, (c != '=') = true := by
      intro s hs c hc
      exact bne_iff_ne.2 (ne_of_mem_of_not_mem hc hs)
    have hchars : k.toList ++ '=' :: v.toList = k'.toList ++ '=' :: v'.toList := by
      simpa using congrArg String.toList h
    obtain ⟨hks, hvs⟩ :=
      ListAux.front_inj (hkey (hp.words k v rfl hk hv)) (hkey (hq.words k' v' rfl hk' hv')) (by simp) (by simp) hchars
    rw [String.toList_injective hks, String.toList_injective (List.cons.inj hvs).2]

theorem PairsLookLike.eq_of_clear {ps qs : List (Value × Value)} (h : PairsLookLike ps qs) (hps : ∀ p ∈ ps, ClearPair p)
    (hqs : ∀ q ∈ qs, ClearPair q) : ps = qs := by
  cases h with
  | nil => rfl
  | cons h hrest =>
    obtain ⟨hp, hps⟩ := List.forall_mem_cons.1 hps
    obtain ⟨hq, hqs⟩ := List.forall_mem_cons.1 hqs
    rw [h.eq_of_clear hp hq, hrest.eq_of_clear hps hqs]

end

/-- Values of strings, booleans, lists and maps, at every depth, are shown as the same text exactly if they look alike:
they differ at most in where the equals sign between a key and its value stands, both being words without quotes. Where
no such key has an equals sign and such a value, the text tells the value. -/
theorem shown_apart {a b : Value} (ha : a.Literal) (hb : b.Literal) :
    (a.repr = b.repr ↔ a.LooksLike b) ∧ (a.Clear → b.Clear → a.repr = b.repr → a = b ∧ (a == b) = true) := by
  refine ⟨ha.repr_eq_iff hb, ?_⟩
  intro hclear hclear' h
  obtain rfl := ((ha.repr_eq_iff hb).1 h).eq_of_clear hclear hclear'
  exact ⟨rfl, beq_refl a⟩

/-- The map of one word to another. -/
def entry (k v : String) : Value := .map [(.string k, .string v)]

/-- A map of one string is a literal. -/
theorem literal_entry (k v : String) : (entry k v).Literal := by
  refine .map ?_ ?_ <;> intro p hp <;> cases List.mem_singleton.1 hp
  · exact .string k
  · exact .string v

/-- A key that has an equals sign, and quotes that are needed, in a list and a map. -/
def mixed : Value := .list [.map [(.string "a=b", .list [.string "it's", .string "", .bool true])], .list [], .string "c=d"]

theorem literal_mixed : mixed.Literal := by
  have hvalue : (Value.list [.string "it's", .string "", .bool true]).Literal := by
    refine .list ?_
    simp only [List.forall_mem_cons]
    exact ⟨.string _, .string _, .bool _, nofun⟩
  refine .list ?_
  simp only [List.forall_mem_cons]
  refine ⟨.map ?_ ?_, .list nofun, .string _, nofun⟩ <;> intro p hp <;> cases List.mem_singleton.1 hp
  · exact .string _
  · exact hvalue

theorem clear_mixed : mixed.Clear := by
  have hvalue : (Value.list [.string "it's", .string "", .bool true]).Clear := by
    refine .list ?_
    simp only [List.forall_mem_cons]
    exact ⟨.string _, .string _, .bool _, nofun⟩
  refine .list ?_
  simp only [List.forall_mem_cons]
  refine ⟨.map ?_ ?_ ?_, .list nofun, .string _, nofun⟩
  · intro k v hp
    nomatch List.mem_singleton.1 hp
  all_goals intro p hp; cases List.mem_singleton.1 hp
  · exact .string _
  · exact hvalue

/-- Two maps look alike that are not the same, and a value of all kinds is shown as it can be told. -/
theorem shown_apart_mixed : (entry "a=b" "c").LooksLike (entry "a" "b=c") ∧
    mixed.repr = "[[&a=b=['it''s' '' $true]] [] c=d]" ∧ (mixed == mixed) = true := by
  refine ⟨(shown_apart (literal_entry _ _) (literal_entry _ _)).1.1 (by decide +kernel), by decide +kernel, ?_⟩
  exact ((shown_apart literal_mixed literal_mixed).2 clear_mixed clear_mixed rfl).2

/-- The text does not tell a key that ends with a sign from a value that begins with one: these maps are different and
shown alike. -/
theorem shown_twice : (entry "a=b" "c").Literal ∧ (entry "a" "b=c").Literal ∧ (entry "a=b" "c").repr = "[&a=b=c]" ∧
    (entry "a" "b=c").repr = "[&a=b=c]" ∧ (entry "a=b" "c" == entry "a" "b=c") = false :=
  ⟨literal_entry _ _, literal_entry _ _, by decide +kernel, by decide +kernel, by decide +kernel⟩

end Value

end DualShell
