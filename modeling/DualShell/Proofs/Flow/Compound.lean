import Mathlib
import DualShell.Compile.Program
import DualShell.Proofs.Flow.Ends

/-!
# Compound words

The words of a compound are those of all choices of one value from each part, in the order of the choices: the first
part varies slowest (`Compound.Product`). The parts are evaluated one after another, each once, and what is there so far
is joined with what comes, so a value that is no string is an error only while there is something to join it with
(`Compound.Clashes`). `Evaluator.ends_compound` says how the loop goes on from the parts that are done, and
`Evaluator.words_multiplied` how a compound word ends.
-/

namespace DualShell

namespace Compound

/-- The word of a choice: the strings at its positions, one of each part, joined. -/
inductive Chosen : List (List Value) → List Nat → String → Prop
  | nil : Chosen [] [] ""
  | cons {vs : List Value} {vss : List (List Value)} {i : Nat} {is : List Nat} {s t : String} (h : vs[i]? = some (.string s))
      (hrest : Chosen vss is t) : Chosen (vs :: vss) (i :: is) (s ++ t)

/-- The words of all choices, in lexicographic order of the choices. -/
structure Product (vss : List (List Value)) (words : List String) : Prop where
  length : words.length = (vss.map List.length).prod
  ordered : ∃ choices : List (List Nat), choices.Pairwise (· < ·) ∧
    (∀ is, is ∈ choices ↔ List.Forall₂ (fun i vs => i < List.length vs) is vss) ∧ List.Forall₂ (Chosen vss) choices words

/-- A part yields a value that is no string, and every part before it some value. -/
def Clashes (vss : List (List Value)) : Prop :=
  ∃ front vs back v, vss = front ++ vs :: back ∧ [] ∉ front ∧ v ∈ vs ∧ ∀ s, v ≠ .string s

/-- The first value that is no string. -/
def FirstOther (vs : List Value) (v : Value) : Prop :=
  ∃ (texts : List String) (back : List Value), vs = texts.map .string ++ v :: back ∧ ∀ s, v ≠ .string s

/-- The choices of positions, the first varying slowest. -/
def choices : List (List Value) → List (List Nat)
  | [] => [[]]
  | vs :: vss => (List.range vs.length).flatMap fun i => (choices vss).map (i :: ·)

/-- The words of strings, the first part varying slowest. -/
def joined : List (List Value) → List String
  | [] => [""]
  | vs :: vss => (vs.filterMap Value.string?).flatMap fun s => (joined vss).map (s ++ ·)

variable {vs : List Value} {vss done : List (List Value)} {v : Value} {words : List String}

/-! ## Values that are no strings -/

/-- Values are strings up to the first that is none. -/
theorem strings_or_other (vs : List Value) : (∃ texts : List String, vs = texts.map .string) ∨ ∃ v, FirstOther vs v := by
  induction vs with
  | nil => exact .inl ⟨[], rfl⟩
  | cons v vs ih =>
    by_cases hv : ∃ s, v = .string s
    · obtain ⟨s, rfl⟩ := hv
      rcases ih with ⟨texts, rfl⟩ | ⟨v, texts, back, rfl, hother⟩
      · exact .inl ⟨s :: texts, rfl⟩
      · exact .inr ⟨v, s :: texts, back, rfl, hother⟩
    · exact .inr ⟨v, [], vs, rfl, fun s heq => hv ⟨s, heq⟩⟩

theorem FirstOther.mem (h : FirstOther vs v) : v ∈ vs := by
  obtain ⟨texts, back, rfl, -⟩ := h
  exact List.mem_append_right _ List.mem_cons_self

theorem FirstOther.other (h : FirstOther vs v) : ∀ s, v ≠ .string s := by
  obtain ⟨texts, back, -, hother⟩ := h
  exact hother

/-- Texts are what is a string among them. -/
theorem filterMap_string? (texts : List String) : (texts.map Value.string).filterMap Value.string? = texts := by
  rw [List.filterMap_map]
  exact List.filterMap_some

theorem not_clashes_nil : ¬Clashes [] := by
  rintro ⟨front, vs, back, v, heq, -⟩
  exact List.append_ne_nil_of_right_ne_nil _ (List.cons_ne_nil _ _) heq.symm

/-- Parts that have strings only do not clash. -/
theorem not_clashes_strings (parts : List (List String)) : ¬Clashes (parts.map (·.map .string)) := by
  rintro ⟨front, vs, back, v, heq, -, hv, hother⟩
  obtain ⟨texts, -, rfl⟩ :=
    List.mem_map.1 (heq ▸ List.mem_append_right front List.mem_cons_self : vs ∈ parts.map (·.map .string))
  obtain ⟨s, -, rfl⟩ := List.mem_map.1 hv
  exact hother s rfl

/-- Only parts after an empty one may hold other values than strings. -/
theorem not_clashes_cons (h : ¬Clashes (vs :: vss)) :
    vs = [] ∨ (∃ texts : List String, vs = texts.map .string) ∧ ¬Clashes vss := by
  by_cases hempty : vs = []
  · exact .inl hempty
  · refine .inr ⟨(strings_or_other vs).resolve_right fun ⟨v, hv⟩ => h ⟨[], vs, vss, v, rfl, List.not_mem_nil, hv.mem,
      hv.other⟩, ?_⟩
    rintro ⟨front, us, back, v, rfl, hfull, hv, hother⟩
    refine h ⟨vs :: front, us, back, v, rfl, fun hmem => ?_, hv, hother⟩
    rcases List.mem_cons.1 hmem with heq | hmem
    · exact hempty heq.symm
    · exact hfull hmem

/-- A clash stays one, whatever parts follow. -/
theorem Clashes.append (h : Clashes done) (vss : List (List Value)) : Clashes (done ++ vss) := by
  obtain ⟨front, us, back, v, rfl, hrest⟩ := h
  exact ⟨front, us, back ++ vss, v, by rw [List.append_assoc, List.cons_append], hrest⟩

/-- Another part clashes if there is something to join it with. -/
theorem clashes_snoc (h : ¬Clashes done) : Clashes (done ++ [vs]) ↔ [] ∉ done ∧ ∃ v ∈ vs, ∀ s, v ≠ .string s := by
  constructor
  · rintro ⟨front, us, back, v, heq, hfull, hv, hother⟩
    rcases List.eq_nil_or_concat back with rfl | ⟨back, last, rfl⟩
    · obtain ⟨rfl, hlast⟩ := List.append_inj' heq rfl
      obtain rfl := List.singleton_inj.1 hlast
      exact ⟨hfull, v, hv, hother⟩
    · rw [List.concat_eq_append, ← List.cons_append, ← List.append_assoc] at heq
      obtain ⟨rfl, -⟩ := List.append_inj' heq rfl
      exact absurd ⟨front, us, back, v, rfl, hfull, hv, hother⟩ h
  · rintro ⟨hfull, v, hv, hother⟩
    exact ⟨done, vs, [], v, rfl, hfull, hv, hother⟩

/-! ## Choices -/

/-- A choice is a position for each part, within the values that the part has. -/
theorem mem_choices {is : List Nat} : is ∈ choices vss ↔ List.Forall₂ (fun i vs => i < List.length vs) is vss := by
  induction vss generalizing is with
  | nil => rw [choices, List.mem_singleton, List.forall₂_nil_right_iff]
  | cons vs vss ih =>
    rw [choices, List.mem_flatMap, List.forall₂_cons_right_iff]
    constructor
    · rintro ⟨i, hi, hmem⟩
      obtain ⟨js, hjs, rfl⟩ := List.mem_map.1 hmem
      exact ⟨i, js, List.mem_range.1 hi, ih.1 hjs, rfl⟩
    · rintro ⟨i, js, hi, hjs, rfl⟩
      exact ⟨i, List.mem_range.2 hi, List.mem_map.2 ⟨js, ih.2 hjs, rfl⟩⟩

/-- Choices come in order. -/
theorem choices_pairwise (vss : List (List Value)) : (choices vss).Pairwise (· < ·) := by
  induction vss with
  | nil => exact List.pairwise_singleton _ _
  | cons vs vss ih =>
    refine List.pairwise_flatMap.2 ⟨fun i _ => ih.map _ fun is js h => List.cons_lt_cons_iff.2 (.inr ⟨rfl, h⟩), ?_⟩
    refine List.pairwise_lt_range.imp fun {i j} hij is his js hjs => ?_
    obtain ⟨is, -, rfl⟩ := List.mem_map.1 his
    obtain ⟨js, -, rfl⟩ := List.mem_map.1 hjs
    exact List.cons_lt_cons_iff.2 (.inl hij)

/-- There are as many choices as the product of the numbers of values. -/
theorem length_choices (vss : List (List Value)) : (choices vss).length = (vss.map List.length).prod := by
  induction vss with
  | nil => rfl
  | cons vs vss ih => simp [choices, List.length_flatMap, ih]

/-- The words are those of the choices, one by one. -/
theorem chosen_joined (h : ¬Clashes vss) : List.Forall₂ (Chosen vss) (choices vss) (joined vss) := by
  induction vss with
  | nil => exact .cons .nil .nil
  | cons vs vss ih =>
    rcases not_clashes_cons h with rfl | ⟨⟨texts, rfl⟩, hrest⟩
    · exact .nil
    · have hpositions : List.Forall₂ (fun i s => texts[i]? = some s) (List.range (texts.map Value.string).length) texts :=
        List.forall₂_iff_get.2 ⟨by simp, fun i hi hi' => by simp⟩
      rw [choices, joined, filterMap_string?]
      refine List.rel_flatMap hpositions fun i s hs => ?_
      rw [List.forall₂_map_left_iff, List.forall₂_map_right_iff]
      exact (ih hrest).imp fun is t hchosen => .cons (by rw [List.getElem?_map, hs]; rfl) hchosen

/-- Values that do not clash have their joined texts as product. -/
theorem product_joined (h : ¬Clashes vss) : Product vss (joined vss) where
  length := by rw [← (chosen_joined h).length_eq, length_choices]
  ordered := ⟨choices vss, choices_pairwise vss, fun _ => mem_choices, chosen_joined h⟩

/-- A choice has one text. -/
theorem Chosen.unique {is : List Nat} {s t : String} (h : Chosen vss is s) (h' : Chosen vss is t) : s = t := by
  induction h generalizing t with
  | nil =>
    cases h'
    rfl
  | cons hs _ ih =>
    cases h' with
    | cons hs' hrest' =>
      rw [ih hrest', Value.string.inj (Option.some.inj (hs.symm.trans hs'))]

/-- The lists of values determine the words. -/
theorem Product.unique {words' : List String} (h : Product vss words) (h' : Product vss words') : words = words' := by
  obtain ⟨cs, hcs, hmem, hwords⟩ := h.ordered
  obtain ⟨cs', hcs', hmem', hwords'⟩ := h'.ordered
  have hnodup {l : List (List Nat)} (hl : l.Pairwise (· < ·)) : l.Nodup :=
    List.nodup_iff_pairwise_ne.2 (hl.imp fun {is js} hlt (heq : is = js) => List.lt_irrefl is (heq ▸ hlt))
  have hperm : cs.Perm cs' := (List.perm_ext_iff_of_nodup (hnodup hcs) (hnodup hcs')).2 fun is =>
    (hmem is).trans (hmem' is).symm
  obtain rfl : cs = cs' :=
    hperm.eq_of_pairwise (fun is js _ _ hlt hgt => absurd (List.lt_trans hlt hgt) (List.lt_irrefl is)) hcs hcs'
  clear hcs hcs' hmem hmem' hnodup hperm h h'
  induction hwords generalizing words' with
  | nil =>
    cases hwords'
    rfl
  | cons hchosen _ ih =>
    cases hwords' with
    | cons hchosen' hrest' => rw [hchosen.unique hchosen', ih hrest']

/-- If one part has no values, no words come of the parts. -/
theorem Product.eq_nil (h : Product vss words) (hempty : [] ∈ vss) : words = [] := by
  obtain ⟨front, back, rfl⟩ := List.append_of_mem hempty
  rw [← List.length_eq_zero_iff, h.length]
  simp

/-- The first part varies slowest. -/
example : Product [[.string "a", .string "b"], [.string "1", .string "2"]] ["a1", "a2", "b1", "b2"] :=
  product_joined (not_clashes_strings [["a", "b"], ["1", "2"]])

/-! ## Joining -/

/-- A word with a value after it. -/
def extend (w : String) : Value → Except Cause String
  | .string s => .ok (w ++ s)
  | v => .error (.type s!"cannot concatenate a {v.kind}")

/-- A part is joined to the first word and then to the others. -/
theorem joinWords_cons (w : String) (words : List String) (vs : List Value) :
    joinWords (w :: words) vs = (do return (← vs.mapM (extend w)) ++ (← joinWords words vs)) := rfl

/-- What is no string cannot be joined. -/
theorem extend_other (w : String) (h : ∀ s, v ≠ .string s) :
    extend w v = .error (.type s!"cannot concatenate a {v.kind}") := by
  cases v with
  | string s => exact absurd rfl (h s)
  | _ => rfl

/-- Strings are joined to a word one after another. -/
theorem mapM_extend (w : String) (texts : List String) :
    (texts.map Value.string).mapM (extend w) = .ok (texts.map (w ++ ·)) := by
  induction texts with
  | nil => rfl
  | cons s texts ih =>
    rw [List.map_cons, List.mapM_cons, ih]
    rfl

/-- The first value that is no string is the one that is told. -/
theorem mapM_extend_other (w : String) (h : FirstOther vs v) :
    vs.mapM (extend w) = .error (.type s!"cannot concatenate a {v.kind}") := by
  obtain ⟨texts, back, rfl, hother⟩ := h
  induction texts with
  | nil =>
    rw [List.map_nil, List.nil_append, List.mapM_cons, extend_other w hother]
    rfl
  | cons s texts ih =>
    rw [List.map_cons, List.cons_append, List.mapM_cons, ih]
    rfl

/-- Strings are joined to each word. -/
theorem joinWords_strings (words texts : List String) :
    joinWords words (texts.map .string) = .ok (words.flatMap fun w => texts.map (w ++ ·)) := by
  induction words with
  | nil => rfl
  | cons w words ih =>
    rw [joinWords_cons, mapM_extend, ih]
    rfl

/-- The first value that is no string is reported, if there is a word to join it with. -/
theorem joinWords_other (h : FirstOther vs v) (hwords : words ≠ []) :
    joinWords words vs = .error (.type s!"cannot concatenate a {v.kind}") := by
  obtain ⟨w, words, rfl⟩ := List.exists_cons_of_ne_nil hwords
  rw [joinWords_cons, mapM_extend_other w h]
  rfl

/-- One part more is joined behind the others. -/
theorem joined_snoc (done : List (List Value)) (vs : List Value) :
    joined (done ++ [vs]) = (joined done).flatMap fun w => (vs.filterMap Value.string?).map (w ++ ·) := by
  induction done with
  | nil => simp [joined]
  | cons us done ih =>
    simp [joined, ih, List.flatMap_assoc, List.map_flatMap, List.flatMap_map, String.append_assoc, Function.comp_def]

/-- There is nothing to join with once a part was empty. -/
theorem joined_eq_nil (h : ¬Clashes done) : joined done = [] ↔ [] ∈ done := by
  induction done with
  | nil => simp [joined]
  | cons us done ih =>
    rcases not_clashes_cons h with rfl | ⟨⟨texts, rfl⟩, hrest⟩
    · simp [joined]
    · rw [joined, filterMap_string?, List.mem_cons, ← ih hrest]
      cases texts with
      | nil => simp
      | cons s texts =>
        have hne : [] ≠ (s :: texts).map Value.string := (List.cons_ne_nil _ _).symm
        rw [List.flatMap_cons, List.append_eq_nil_iff, List.map_eq_nil_iff, or_iff_right hne,
          and_iff_left_of_imp fun hnil => ?_]
        rw [hnil]
        simp

/-- One step of the loop: the words so far are joined with the values of the next part, or the first value that is no
string is reported. -/
theorem joinWords_done (h : ¬Clashes done) (vs : List Value) :
    (¬Clashes (done ++ [vs]) ∧ joinWords (joined done) vs = .ok (joined (done ++ [vs]))) ∨
      ∃ v, FirstOther vs v ∧ [] ∉ done ∧ joinWords (joined done) vs = .error (.type s!"cannot concatenate a {v.kind}") := by
  by_cases hempty : [] ∈ done
  · have hnil : joined done = [] := (joined_eq_nil h).2 hempty
    refine .inl ⟨fun hclashes => ((clashes_snoc h).1 hclashes).1 hempty, ?_⟩
    rw [joined_snoc, hnil]
    rfl
  · rcases strings_or_other vs with ⟨texts, rfl⟩ | ⟨v, hv⟩
    · refine .inl ⟨fun hclashes => ?_, ?_⟩
      · obtain ⟨-, v, hv, hother⟩ := (clashes_snoc h).1 hclashes
        obtain ⟨s, -, rfl⟩ := List.mem_map.1 hv
        exact hother s rfl
      · rw [joinWords_strings, joined_snoc, filterMap_string?]
    · exact .inr ⟨v, hv, hempty, joinWords_other hv fun hnil => hempty ((joined_eq_nil h).1 hnil)⟩

end Compound

/-! ## Runs -/

namespace Evaluator

open Eval Compound

variable {e : Evaluator} {ctx : Context} {parts : List Code.Operand} {es : List Exchange} {done vss : List (List Value)}

/-- Parts are evaluated one after another, each once, and this is what they yield. -/
inductive Yields (e : Evaluator) (ctx : Context) : List Code.Operand → List Exchange → List (List Value) → Prop
  | nil : Yields e ctx [] [] []
  | cons {part : Code.Operand} {parts : List Code.Operand} {es₁ es₂ : List Exchange} {vs : List Value}
      {vss : List (List Value)} (h : (e.operand part ctx).Ends es₁ (.ok vs)) (hrest : Yields e ctx parts es₂ vss) :
      Yields e ctx (part :: parts) (es₁ ++ es₂) (vs :: vss)

/-- How the words of a compound come out, after the parts that are done. -/
inductive Composes (e : Evaluator) (ctx : Context) (done : List (List Value)) (parts : List Code.Operand) :
    List Exchange → Except Exception (List String) → Prop
  | joined {es : List Exchange} {vss : List (List Value)} (h : e.Yields ctx parts es vss) (hfits : ¬Clashes (done ++ vss)) :
      Composes e ctx done parts es (.ok (joined (done ++ vss)))
  | clashed {front back : List Code.Operand} {part : Code.Operand} {es₁ es₂ : List Exchange} {vss : List (List Value)}
      {vs : List Value}
      {v : Value} (hparts : parts = front ++ part :: back) (h : e.Yields ctx front es₁ vss) (hfits : ¬Clashes (done ++ vss))
      (hpart : (e.operand part ctx).Ends es₂ (.ok vs)) (hfull : [] ∉ done ++ vss) (hfirst : FirstOther vs v) :
      Composes e ctx done parts (es₁ ++ es₂) (.error (.ofCause (.type s!"cannot concatenate a {v.kind}")))
  | failed {front back : List Code.Operand} {part : Code.Operand} {es₁ es₂ : List Exchange} {vss : List (List Value)}
      {ex : Exception}
      (hparts : parts = front ++ part :: back) (h : e.Yields ctx front es₁ vss) (hfits : ¬Clashes (done ++ vss))
      (hpart : (e.operand part ctx).Ends es₂ (.error ex)) : Composes e ctx done parts (es₁ ++ es₂) (.error ex)

/-- A part after those that are done yields a value that is no string. -/
theorem Composes.clashed_next {part : Code.Operand} {vs : List Value} {v : Value} (hdone : ¬Clashes done)
    (hpart : (e.operand part ctx).Ends es (.ok vs)) (hfull : [] ∉ done) (hfirst : FirstOther vs v) :
    Composes e ctx done (part :: parts) es (.error (.ofCause (.type s!"cannot concatenate a {v.kind}"))) := by
  rw [← List.append_nil done] at hdone hfull
  exact .clashed (List.nil_append (part :: parts)).symm .nil hdone hpart hfull hfirst

/-- A part after those that are done fails. -/
theorem Composes.failed_next {part : Code.Operand} {ex : Exception} (hdone : ¬Clashes done)
    (hpart : (e.operand part ctx).Ends es (.error ex)) : Composes e ctx done (part :: parts) es (.error ex) := by
  rw [← List.append_nil done] at hdone
  exact .failed (List.nil_append (part :: parts)).symm .nil hdone hpart

/-- A part in front that has been evaluated belongs to those that are done. -/
theorem Composes.cons {part : Code.Operand} {es₁ es₂ : List Exchange} {vs : List Value} {r : Except Exception (List String)}
    (hpart : (e.operand part ctx).Ends es₁ (.ok vs)) (h : Composes e ctx (done ++ [vs]) parts es₂ r) :
    Composes e ctx done (part :: parts) (es₁ ++ es₂) r := by
  have hsnoc (vss : List (List Value)) : done ++ [vs] ++ vss = done ++ vs :: vss := by
    rw [List.append_assoc, List.singleton_append]
  cases h with
  | joined h hfits =>
    rw [hsnoc] at hfits ⊢
    exact .joined (.cons hpart h) hfits
  | clashed hparts h hfits hlast hfull hfirst =>
    rw [hsnoc] at hfits hfull
    rw [← List.append_assoc]
    exact .clashed (congrArg (part :: ·) hparts) (.cons hpart h) hfits hlast hfull hfirst
  | failed hparts h hfits hlast =>
    rw [hsnoc] at hfits
    rw [← List.append_assoc]
    exact .failed (congrArg (part :: ·) hparts) (.cons hpart h) hfits hlast

/-- The loop goes through parts that fit. -/
theorem Yields.ends_compound {front : List Code.Operand} {es₁ es₂ : List Exchange} {r : Except Exception (List String)}
    (h : e.Yields ctx front es₁ vss) (hfits : ¬Clashes (done ++ vss))
    (hrest : (e.compound ctx (joined (done ++ vss)) parts).Ends es₂ r) :
    (e.compound ctx (joined done) (front ++ parts)).Ends (es₁ ++ es₂) r := by
  induction h generalizing done with
  | nil => rwa [List.append_nil] at hrest
  | @cons part front es₁ es₁' vs vss hpart _ ih =>
    rw [show done ++ vs :: vss = done ++ [vs] ++ vss by rw [List.append_assoc, List.singleton_append]] at hfits hrest
    have hnext : ¬Clashes (done ++ [vs]) := fun hclashes => hfits (hclashes.append vss)
    have hdone : ¬Clashes done := fun hclashes => hnext (hclashes.append [vs])
    rw [List.append_assoc]
    refine hpart.bind (ends_ofExcept_bind.2 (.inr ⟨_, ?_, ih hfits hrest⟩))
    exact ((joinWords_done hdone vs).resolve_right fun ⟨v, hv, hfull, _⟩ =>
      hnext ((clashes_snoc hdone).2 ⟨hfull, v, hv.mem, hv.other⟩)).2

/-- The loop goes on from the parts that are done. -/
theorem ends_compound {r : Except Exception (List String)} (hdone : ¬Clashes done) :
    (e.compound ctx (joined done) parts).Ends es r ↔ Composes e ctx done parts es r := by
  constructor
  · intro h
    induction parts generalizing done es with
    | nil =>
      obtain ⟨rfl, rfl⟩ := ends_pure.1 h
      have hjoined : Composes e ctx done [] [] (.ok (joined (done ++ []))) :=
        .joined .nil ((List.append_nil done).symm ▸ hdone)
      rwa [List.append_nil] at hjoined
    | cons part parts ih =>
      obtain ⟨ex, hpart, rfl⟩ | ⟨es₁, es₂, vs, rfl, hpart, h⟩ := ends_bind.1 h
      · exact .failed_next hdone hpart
      · obtain ⟨c, hjoin, rfl, rfl⟩ | ⟨words, hjoin, h⟩ := ends_ofExcept_bind.1 h
        · obtain ⟨-, hok⟩ | ⟨v, hv, hfull, herror⟩ := joinWords_done hdone vs
          · rw [hok] at hjoin
            cases hjoin
          · rw [herror] at hjoin
            cases hjoin
            rw [List.append_nil]
            exact .clashed_next hdone hpart hfull hv
        · obtain ⟨hnext, hok⟩ | ⟨v, -, -, herror⟩ := joinWords_done hdone vs
          · rw [hok] at hjoin
            cases hjoin
            exact (ih hnext h).cons hpart
          · rw [herror] at hjoin
            cases hjoin
  · intro h
    cases h with
    | @joined _ vss h hfits =>
      have hend : (e.compound ctx (joined (done ++ vss)) []).Ends [] (.ok (joined (done ++ vss))) := ends_pure.2 ⟨rfl, rfl⟩
      have hall := h.ends_compound hfits hend
      rwa [List.append_nil, List.append_nil] at hall
    | clashed hparts h hfits hpart hfull hfirst =>
      subst hparts
      have hwords := fun hnil => hfull ((joined_eq_nil hfits).1 hnil)
      exact h.ends_compound hfits
        (hpart.bind_last (ends_ofExcept_bind.2 (.inl ⟨_, joinWords_other hfirst hwords, rfl, rfl⟩)))
    | failed hparts h hfits hpart =>
      subst hparts
      exact h.ends_compound hfits hpart.bind_error

/-- Where the values clash, the words come to an error after the first part that does. -/
theorem Yields.clash (h : e.Yields ctx parts es vss) (hdone : ¬Clashes done) (hclashes : Clashes (done ++ vss)) :
    ∃ es' message, es' <+: es ∧ Composes e ctx done parts es' (.error (.ofCause (.type message))) := by
  induction h generalizing done with
  | nil => exact absurd (List.append_nil done ▸ hclashes) hdone
  | @cons part parts es₁ es₂ vs vss hpart _ ih =>
    obtain ⟨hnext, -⟩ | ⟨v, hv, hfull, -⟩ := joinWords_done hdone vs
    · rw [← List.singleton_append, ← List.append_assoc] at hclashes
      obtain ⟨es', message, hwithin, h⟩ := ih hnext hclashes
      exact ⟨es₁ ++ es', message, (List.prefix_append_right_inj es₁).2 hwithin, h.cons hpart⟩
    · exact ⟨es₁, _, List.prefix_append es₁ es₂, .clashed_next hdone hpart hfull hv⟩

/-- The values of the word are what the loop makes of its parts, from one empty word. -/
theorem ends_compound_word {r : Except Exception (List Value)} :
    (e.evalOperand (.compound parts) ctx).Ends es r ↔ ∃ words, Composes e ctx [] parts es words ∧
    r = words.map (·.map .string) := by
  constructor
  · intro h
    obtain ⟨ex, hloop, rfl⟩ | ⟨es₁, es₂, words, rfl, hloop, hpure⟩ := ends_bind.1 h
    · exact ⟨_, (ends_compound not_clashes_nil).1 hloop, rfl⟩
    · obtain ⟨rfl, rfl⟩ := ends_pure.1 hpure
      rw [List.append_nil]
      exact ⟨_, (ends_compound not_clashes_nil).1 hloop, rfl⟩
  · rintro ⟨words, h, rfl⟩
    have hloop : (e.compound ctx [""] parts).Ends es words := (ends_compound not_clashes_nil).2 h
    cases words with
    | ok words => exact hloop.bind_last (ends_pure.2 ⟨rfl, rfl⟩)
    | error ex => exact hloop.bind_error

/-- Parts that fit yield the words that are joined of their values. -/
theorem Yields.ends_word (h : e.Yields ctx parts es vss) (hfits : ¬Clashes vss) :
    (e.evalOperand (.compound parts) ctx).Ends es (.ok ((joined vss).map .string)) :=
  ends_compound_word.2 ⟨_, .joined h hfits, rfl⟩

/-- A compound word ends with the ordered product of what its parts yield, with the first value that is no string where
there is something to join it with, or with the failure of a part; where all parts yield values, it is a clash of these
that makes it a type error, an empty part leaves no words, and no parts one empty word. A compound of one part is
compiled to that part. -/
theorem words_multiplied (e : Evaluator) (ctx : Context) (parts : List Code.Operand) :
    (∀ es r, (e.evalOperand (.compound parts) ctx).Ends es r ↔
      (∃ vss words, e.Yields ctx parts es vss ∧ ¬Clashes vss ∧ Product vss words ∧ r = .ok (words.map .string)) ∨
      (∃ front part back es₁ es₂ vss vs v, parts = front ++ part :: back ∧ es = es₁ ++ es₂ ∧
        e.Yields ctx front es₁ vss ∧ ¬Clashes vss ∧
        [] ∉ vss ∧ (e.operand part ctx).Ends es₂ (.ok vs) ∧ FirstOther vs v ∧
        r = .error (.ofCause (.type s!"cannot concatenate a {v.kind}"))) ∨
      ∃ front part back es₁ es₂ vss ex, parts = front ++ part :: back ∧ es = es₁ ++ es₂ ∧ e.Yields ctx front es₁ vss ∧
      ¬Clashes vss ∧
        (e.operand part ctx).Ends es₂ (.error ex) ∧ r = .error ex) ∧
    (∀ es vss, e.Yields ctx parts es vss →
      (Clashes vss ↔ ∃ es' message, es' <+: es ∧
        (e.evalOperand (.compound parts) ctx).Ends es' (.error (.ofCause (.type message)))) ∧
      ([] ∈ vss → ∀ words, (e.evalOperand (.compound parts) ctx).Ends es (.ok words) → words = [])) ∧
    (parts = [] → (e.evalOperand (.compound parts) ctx).Ends [] (.ok [.string ""])) ∧
    ∀ src span, (∀ part, compileWord src span (.compound [part]) = compileWord src span part) ∧
      ∀ words, words.length ≠ 1 → compileWord src span (.compound words) = .compound <$> compileWords src span words := by
  refine ⟨fun es r => ends_compound_word.trans ⟨?_, ?_⟩, fun es vss h =>
    ⟨⟨fun hclashes => ?_, ?_⟩, fun hempty words hend => ?_⟩, ?_, fun src span => ⟨?_, ?_⟩⟩
  · rintro ⟨-, ⟨h, hfits⟩ | ⟨hparts, h, hfits, hpart, hfull, hfirst⟩ | ⟨hparts, h, hfits, hpart⟩, rfl⟩
    · exact .inl ⟨_, _, h, hfits, product_joined hfits, rfl⟩
    · exact .inr (.inl ⟨_, _, _, _, _, _, _, _, hparts, rfl, h, hfits, hfull, hpart, hfirst, rfl⟩)
    · exact .inr (.inr ⟨_, _, _, _, _, _, _, hparts, rfl, h, hfits, hpart, rfl⟩)
  · rintro (⟨vss, words, h, hfits, hproduct, rfl⟩ |
      ⟨front, part, back, es₁, es₂, vss, vs, v, hparts, rfl, h, hfits, hfull, hpart, hfirst, rfl⟩ |
      ⟨front, part, back, es₁, es₂, vss, ex, hparts, rfl, h, hfits, hpart, rfl⟩)
    · rw [hproduct.unique (product_joined hfits)]
      exact ends_compound_word.1 (h.ends_word hfits)
    · exact ⟨_, .clashed hparts h hfits hpart hfull hfirst, rfl⟩
    · exact ⟨_, .failed hparts h hfits hpart, rfl⟩
  · obtain ⟨es', message, hwithin, hcomposes⟩ := h.clash not_clashes_nil hclashes
    exact ⟨es', message, hwithin, ends_compound_word.2 ⟨_, hcomposes, rfl⟩⟩
  · rintro ⟨es', message, hwithin, hend⟩
    by_contra hfits
    cases ((h.ends_word hfits).unique_within hend hwithin).2
  · by_cases hclashes : Clashes vss
    · obtain ⟨es', message, hwithin, hcomposes⟩ := h.clash not_clashes_nil hclashes
      cases (hend.unique_within (ends_compound_word.2 ⟨_, hcomposes, rfl⟩) hwithin).2
    · cases (h.ends_word hclashes).unique hend
      rw [(joined_eq_nil hclashes).2 hempty, List.map_nil]
  · rintro rfl
    exact Yields.nil.ends_word not_clashes_nil
  · intro part
    rw [compileWord]
  · intro words hlength
    rw [compileWord]
    · rfl
    · exact fun part heq => hlength (congrArg List.length heq)

/-- A pattern that two paths match, and text after it. -/
theorem words_multiplied_pattern :
    ((Evaluator.atDepth 1 2).evalOperand (.compound [.wildcard "*" false, .literal ".txt"]) ⟨0, 0, [], .empty, []⟩).Ends
      [⟨.expand "*", Except.ok ["a", "b"]⟩] (.ok [.string "a.txt", .string "b.txt"]) := by
  have hpattern : ((Evaluator.atDepth 1 2).operand (.wildcard "*" false) ⟨0, 0, [], .empty, []⟩).Ends
      [⟨.expand "*", Except.ok ["a", "b"]⟩] (.ok [.string "a", .string "b"]) :=
    ends_ask_bind.2 ⟨Except.ok ["a", "b"], [], rfl, ends_pure.2 ⟨rfl, rfl⟩⟩
  have htext : ((Evaluator.atDepth 1 2).operand (.literal ".txt") ⟨0, 0, [], .empty, []⟩).Ends []
    (.ok [.string ".txt"]) := .ret _
  have hfits := not_clashes_strings [["a", "b"], [".txt"]]
  exact ((words_multiplied _ _ _).1 _ _).2 (.inl ⟨_, _, .cons hpattern (.cons htext .nil), hfits, product_joined hfits, rfl⟩)

end Evaluator

end DualShell
