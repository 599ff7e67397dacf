import DualShell.Machine.Request
import DualShell.Machine.Store
import DualShell.Proofs.Value.Lookup
import DualShell.Proofs.Value.Sequence

/-!
# Updates along a path

A path of keys leads into a value step by step (`Value.follow`). Replacing the element at its end puts the new value
there and leaves alone whatever a path reaches that at some step takes another place (`Value.Diverges`); removing it
takes that one element out of the list or map it was in. `Value.paths_lawful` gathers this, with what becomes of a
variable.
-/

namespace DualShell

open Position

namespace Value

variable {v w u k k' child child' : Value} {keys path front : List Value} {last : Value}

/-! ## Paths -/

/-- Index by one key after another. -/
def follow (v : Value) : List Value → Except Cause Value
  | [] => .ok v
  | key :: keys => do
    let child ← v.index key
    child.follow keys

/-- The key is no slice. -/
def Single (key : Value) : Prop := ∀ s, key = .string s → ¬Dotted s.toList

/-- Both keys mean the same place of a list or a map. -/
inductive SamePlace : Value → Value → Value → Prop
  | position {items : List Value} {s t : String} {p : Nat} (hs : element s items.length = .ok p)
      (ht : element t items.length = .ok p) : SamePlace (.list items) (.string s) (.string t)
  | key {pairs : List (Value × Value)} {k k' : Value} (h : (k == k') = true) : SamePlace (.map pairs) k k'

/-- The first key means a place of a list or a map, and the second not this one. -/
inductive OtherPlace : Value → Value → Value → Prop
  | position {items : List Value} {s : String} {k : Value} {p : Nat} (hs : element s items.length = .ok p)
      (hsingle : k.Single)
      (hne : ∀ t, k = .string t → element t items.length ≠ .ok p) : OtherPlace (.list items) (.string s) k
  | key {pairs : List (Value × Value)} {k k' : Value} (h : (k == k') = false) : OtherPlace (.map pairs) k k'

/-- Of two paths the second takes another place at some step, the first of those at which they are not at the same one. -/
inductive Diverges : Value → List Value → List Value → Prop
  | here {v k k' : Value} {keys path : List Value} (h : OtherPlace v k k') : Diverges v (k :: keys) (k' :: path)
  | later {v k k' child : Value} {keys path : List Value} (h : SamePlace v k k') (hchild : v.index k = .ok child)
      (hrest : Diverges child keys path) : Diverges v (k :: keys) (k' :: path)

/-- Of two paths one takes the same places as the other, as far as both go. -/
inductive Along : Value → List Value → List Value → Prop
  | short {v : Value} {keys : List Value} : Along v keys []
  | long {v k k' : Value} {path : List Value} (h : SamePlace v k k') : Along v [k] (k' :: path)
  | step {v k k' child : Value} {keys path : List Value} (h : SamePlace v k k') (hchild : v.index k = .ok child)
      (hrest : Along child keys path) : Along v (k :: keys) (k' :: path)

/-- A path is followed key by key. -/
theorem follow_cons : v.follow (k :: keys) = (v.index k).bind fun child => child.follow keys := rfl

/-- What is found along a path has maps without a key twice. -/
theorem Distinct.follow (hv : v.Distinct) (h : v.follow keys = Except.ok w) : w.Distinct := by
  induction keys generalizing v with
  | nil =>
    cases h
    exact hv
  | cons k keys ih =>
    rw [follow_cons] at h
    cases hchild : v.index k with
    | error c =>
      rw [hchild] at h
      cases h
    | ok child =>
      rw [hchild] at h
      exact ih (Law.distinct.index hv _ _ hchild) h

/-! ## One step -/

/-- A key that is no slice reads the item at its place. -/
theorem indexList_of_single {items : List Value} {s : String} (h : ¬Dotted s.toList) :
    indexList items s = (element s items.length).map fun p => items.getD p .empty := by
  unfold indexList
  rw [slice?_single h]
  cases element s items.length <;> rfl

/-- A position of one element is no slice, and within bounds. -/
theorem element_single {s : String} {n p : Nat} (h : element s n = .ok p) : ¬Dotted s.toList ∧ p < n := by
  obtain ⟨i, hi, -, hlt⟩ := element_eq_ok.1 h
  exact ⟨hi.not_dotted, hlt⟩

/-- Where an element can be replaced: at a place of a list, and under any key of a map. -/
theorem assoc_eq_ok : v.assoc k u = .ok w ↔
    (∃ items s p, v = .list items ∧ k = .string s ∧ element s items.length = .ok p ∧ w = .list (items.set p u)) ∨
      ∃ pairs, v = .map pairs ∧ w = .map (insertPair pairs k u) := by
  constructor
  · intro h
    cases v with
    | list items =>
      cases k with
      | string s =>
        change (element s items.length).bind (fun i => .ok (.list (items.set i u))) = .ok w at h
        cases hs : element s items.length with
        | error c =>
          rw [hs] at h
          cases h
        | ok p =>
          rw [hs] at h
          cases h
          exact .inl ⟨items, s, p, rfl, rfl, hs, rfl⟩
      | _ => cases h
    | map pairs =>
      cases h
      exact .inr ⟨pairs, rfl, rfl⟩
    | _ => cases h
  · rintro (⟨items, s, p, rfl, rfl, hs, rfl⟩ | ⟨pairs, rfl, rfl⟩)
    · change (element s items.length).bind (fun i => .ok (Value.list (items.set i u))) = _
      rw [hs]
      rfl
    · rfl

/-- What is put somewhere is there, by whatever key one asks for that place. -/
theorem SamePlace.index_assoc (hplace : SamePlace v k k') (hk : k.Distinct) (h : v.assoc k u = .ok w) :
    w.index k' = .ok u := by
  rcases assoc_eq_ok.1 h with ⟨items, s, p, rfl, rfl, hs, rfl⟩ | ⟨pairs, rfl, rfl⟩
  · cases hplace with
    | position hs' ht =>
      cases hs.symm.trans hs'
      obtain ⟨hsingle, hlt⟩ := element_single ht
      change indexList (items.set p u) _ = _
      rw [indexList_of_single hsingle, List.length_set, ht]
      simp [Except.map, List.getD_eq_getElem?_getD, hlt]
  · cases hplace with
    | key heq => rw [index_map, lookup?_insertPair_same hk heq]

/-- What is put somewhere is found by the same key. -/
theorem index_assoc (h : v.assoc k u = .ok w) : w.index k = .ok u := by
  rcases assoc_eq_ok.1 h with ⟨items, s, p, rfl, rfl, hs, rfl⟩ | ⟨pairs, rfl, rfl⟩
  · exact (SamePlace.position hs hs).index_assoc (.string s) h
  · rw [index_map, lookup?_insertPair_self]

/-- What a key finds another key for the same place finds as well. -/
theorem SamePlace.index (hplace : SamePlace v k k') (hk : k.Distinct) (h : v.index k = .ok child) :
    v.index k' = .ok child := by
  cases hplace with
  | position hs ht =>
    change indexList _ _ = _ at h ⊢
    rw [indexList_of_single (element_single hs).1, hs] at h
    rw [indexList_of_single (element_single ht).1, ht]
    exact h
  | key heq =>
    rw [index_map] at h ⊢
    rw [← hk.lookup?_eq heq]
    split at h
    · exact h
    · cases h

/-- At other places nothing changes. -/
theorem OtherPlace.index_assoc (hplace : OtherPlace v k k') (hv : v.Distinct) (h : v.assoc k u = .ok w) :
    w.index k' = v.index k' := by
  rcases assoc_eq_ok.1 h with ⟨items, s, p, rfl, rfl, hs, rfl⟩ | ⟨pairs, rfl, rfl⟩
  · cases hplace with
    | position hs' hsingle hne =>
      cases hs.symm.trans hs'
      cases k' with
      | string t =>
        change indexList _ _ = indexList _ _
        rw [indexList_of_single (hsingle t rfl), indexList_of_single (hsingle t rfl), List.length_set]
        cases ht : element t items.length with
        | error c => rfl
        | ok q =>
          have hpq : p ≠ q := by
            rintro rfl
            exact hne t rfl ht
          simp [Except.map, List.getD_eq_getElem?_getD, List.getElem?_set_ne hpq]
      | _ => rfl
  · cases hplace with
    | key hne => rw [index_map, index_map, lookup?_insertPair_other (fun p hp => (hv.parts.2 p hp).1) hne]

/-! ## Replacing along a path -/

/-- The element below is replaced first, and then the one on the way to it. -/
theorem assocPath_cons (h : v.assocPath (k :: keys) u = .ok w) : ∃ child', v.assoc k child' = .ok w ∧
    (keys = [] ∧ child' = u ∨ keys ≠ [] ∧ ∃ child, v.index k = .ok child ∧ child.assocPath keys u = .ok child') := by
  cases keys with
  | nil => exact ⟨u, h, .inl ⟨rfl, rfl⟩⟩
  | cons next keys =>
    change ((v.index k).bind fun child => (child.assocPath (next :: keys) u).bind fun child' => v.assoc k child') = _ at h
    cases hchild : v.index k with
    | error c =>
      rw [hchild] at h
      cases h
    | ok child =>
      cases hchild' : child.assocPath (next :: keys) u with
      | error c =>
        simp only [hchild, Except.bind, hchild'] at h
        cases h
      | ok child' =>
        simp only [hchild, Except.bind, hchild'] at h
        exact ⟨child', h, .inr ⟨List.cons_ne_nil _ _, child, rfl, hchild'⟩⟩

/-- The path leads to the new value. -/
theorem follow_assocPath (h : v.assocPath keys u = .ok w) : w.follow keys = .ok u := by
  induction keys generalizing v w with
  | nil =>
    cases h
    rfl
  | cons k keys ih =>
    obtain ⟨child', hassoc, hrest⟩ := assocPath_cons h
    rw [follow_cons, index_assoc hassoc]
    rcases hrest with ⟨rfl, rfl⟩ | ⟨-, child, -, hchild'⟩
    · rfl
    · exact ih hchild'

/-- A path to another place leads to what it led to before, or fails as before. -/
theorem Diverges.follow_assocPath (hpath : Diverges v keys path) (hv : v.Distinct) (hkeys : ∀ k ∈ keys, k.Distinct)
    (h : v.assocPath keys u = .ok w) : w.follow path = v.follow path := by
  induction hpath generalizing w with
  | here hplace =>
    obtain ⟨child', hassoc, -⟩ := assocPath_cons h
    rw [follow_cons, follow_cons, hplace.index_assoc hv hassoc]
  | later hplace hchild hpath ih =>
    obtain ⟨hk, hkeys⟩ := List.forall_mem_cons.1 hkeys
    obtain ⟨child', hassoc, hrest⟩ := assocPath_cons h
    rw [follow_cons, follow_cons, hplace.index_assoc hk hassoc, hplace.index hk hchild]
    rcases hrest with ⟨rfl, -⟩ | ⟨-, child, hchild₁, hchild'⟩
    · cases hpath
    · cases hchild.symm.trans hchild₁
      exact ih (Law.distinct.index hv _ _ hchild) hkeys hchild'

/-- Where an element can be replaced, a key that is no slice means the same place or not. -/
theorem samePlace_or_otherPlace (h : v.assoc k u = .ok w) (hsingle : k'.Single) : SamePlace v k k' ∨ OtherPlace v k k' := by
  rcases assoc_eq_ok.1 h with ⟨items, s, p, rfl, rfl, hs, -⟩ | ⟨pairs, rfl, -⟩
  · by_cases hsame : ∃ t, k' = .string t ∧ element t items.length = .ok p
    · obtain ⟨t, rfl, ht⟩ := hsame
      exact .inl (.position hs ht)
    · exact .inr (.position hs hsingle fun t hk' ht => hsame ⟨t, hk', ht⟩)
  · cases heq : k == k' with
    | true => exact .inl (.key heq)
    | false => exact .inr (.key heq)

/-- A path without slices takes another place at some step, or the same places as far as it goes. -/
theorem diverges_or_along (h : v.assocPath keys u = .ok w) (hkeys : keys ≠ []) (hpath : ∀ k ∈ path, k.Single) :
    Diverges v keys path ∨ Along v keys path := by
  induction keys generalizing v w path with
  | nil => exact absurd rfl hkeys
  | cons k keys ih =>
    cases path with
    | nil => exact .inr .short
    | cons k' path =>
      obtain ⟨hk', hpath⟩ := List.forall_mem_cons.1 hpath
      obtain ⟨child', hassoc, hrest⟩ := assocPath_cons h
      rcases samePlace_or_otherPlace hassoc hk' with hsame | hother
      · rcases hrest with ⟨rfl, -⟩ | ⟨hne, child, hchild, hchild'⟩
        · exact .inr (.long hsame)
        · rcases ih hchild' hne hpath with hdiverges | halong
          · exact .inl (.later hsame hchild hdiverges)
          · exact .inr (.step hsame hchild halong)
      · exact .inl (.here hother)

/-! ## Removing along a path -/

/-- What is left of a list without the element at a place, or of a map without the pair of a key. -/
inductive Loses : Value → Value → Value → Prop
  | position {items : List Value} {s : String} {p : Nat} (hs : element s items.length = .ok p) :
      Loses (.list items) (.string s) (.list (items.take p ++ items.drop (p + 1)))
  | key {before after : List (Value × Value)} {p : Value × Value} {k : Value} (hk : (p.1 == k) = true)
      (hothers : ∀ q ∈ before ++ after, (q.1 == k) = false) : Loses (.map (before ++ p :: after)) k (.map (before ++ after))

/-- What is rid of a key lacks what was there, and nothing else. -/
theorem Distinct.loses_of_dissoc (hv : v.Distinct) (h : v.dissoc k = Except.ok w) : Loses v k w := by
  cases v with
  | list items =>
    cases k with
    | string s =>
      change (element s items.length).bind (fun i => Except.ok (Value.list (items.eraseIdx i))) = Except.ok w at h
      cases hs : element s items.length with
      | error c =>
        rw [hs] at h
        cases h
      | ok p =>
        rw [hs] at h
        cases h
        rw [List.eraseIdx_eq_take_drop_succ]
        exact .position hs
    | _ => cases h
  | map pairs =>
    obtain ⟨before, p, after, rfl, hp, rfl⟩ := hv.dissoc_map_iff.1 h
    obtain ⟨hkeys, hparts⟩ := hv.parts
    refine .key hp fun q hq => ?_
    have hkept := hkeys.filter_ne (fun q hq => (hparts q hq).1) hp
    rw [← hkept] at hq
    simpa using (List.mem_filter.1 hq).2
  | _ => cases h

/-- Removing what is at the end of a path is replacing what the rest of the path leads to by what is left of it. -/
theorem dissocPath_concat : v.dissocPath (front ++ [last]) = .ok w ↔
    ∃ c c', v.follow front = .ok c ∧ c.dissoc last = .ok c' ∧ v.assocPath front c' = .ok w := by
  induction front generalizing v w with
  | nil =>
    change v.dissoc last = .ok w ↔ _
    constructor
    · exact fun h => ⟨v, w, rfl, h, rfl⟩
    · rintro ⟨c, c', hc, hc', hw⟩
      cases hc
      cases hw
      exact hc'
  | cons k front ih =>
    have hpath : v.dissocPath (k :: front ++ [last]) =
        (v.index k).bind fun child => (child.dissocPath (front ++ [last])).bind fun child' => v.assoc k child' := by
      cases front <;> rfl
    rw [hpath, follow_cons]
    cases hchild : v.index k with
    | error c =>
      refine iff_of_false (by rintro ⟨⟩) ?_
      rintro ⟨c, c', hc, -⟩
      cases hc
    | ok child =>
      change ((child.dissocPath (front ++ [last])).bind fun child' => v.assoc k child') = .ok w ↔
        ∃ c c', child.follow front = .ok c ∧ c.dissoc last = .ok c' ∧ v.assocPath (k :: front) c' = .ok w
      constructor
      · intro h
        cases hchild' : child.dissocPath (front ++ [last]) with
        | error c =>
          rw [hchild'] at h
          cases h
        | ok child' =>
          rw [hchild'] at h
          obtain ⟨c, c', hc, hc', hassoc⟩ := ih.1 hchild'
          refine ⟨c, c', hc, hc', ?_⟩
          cases front with
          | nil =>
            cases hassoc
            exact h
          | cons next front =>
            change ((v.index k).bind fun child => (child.assocPath (next :: front) c').bind fun child' =>
              v.assoc k child') = _
            rw [hchild]
            change ((child.assocPath (next :: front) c').bind fun child' => v.assoc k child') = _
            rw [hassoc]
            exact h
      · rintro ⟨c, c', hc, hc', h⟩
        obtain ⟨child', hassoc, hrest⟩ := assocPath_cons h
        have hchild' : child.dissocPath (front ++ [last]) = .ok child' := by
          refine ih.2 ⟨c, c', hc, hc', ?_⟩
          rcases hrest with ⟨rfl, rfl⟩ | ⟨-, child₁, hchild₁, hchild'⟩
          · rfl
          · cases hchild.symm.trans hchild₁
            exact hchild'
        rw [hchild']
        exact hassoc

/-! ## The laws -/

/-- What updates along a path do. -/
structure PathsLawful : Prop where
  /-- The path leads to the new value. -/
  replaced {v w u : Value} {keys : List Value} (h : v.assocPath keys u = .ok w) : w.follow keys = .ok u
  /-- Every other path leads to what it led to before, or fails as it did before. -/
  others_kept {v w u : Value} {keys path : List Value} (hv : v.Distinct) (hkeys : ∀ k ∈ keys, k.Distinct)
    (h : v.assocPath keys u = .ok w) (hpath : Diverges v keys path) : w.follow path = v.follow path
  /-- All paths of keys that are no slices are other paths, but for those that lead the same way. -/
  others {v w u : Value} {keys path : List Value} (hne : keys ≠ []) (h : v.assocPath keys u = .ok w)
    (hpath : ∀ k ∈ path, k.Single) : Diverges v keys path ∨ Along v keys path
  /-- The list or map at which the last key points loses what it points at, and nothing else. -/
  removed {v w last : Value} {front : List Value} (hv : v.Distinct) (h : v.dissocPath (front ++ [last]) = .ok w) :
    ∃ c c', v.follow front = .ok c ∧ w.follow front = .ok c' ∧ Loses c last c'
  /-- A path to another place than that of the list or map leads to what it led to before. -/
  others_left {v w last : Value} {front path : List Value} (hv : v.Distinct) (hkeys : ∀ k ∈ front, k.Distinct)
    (h : v.dissocPath (front ++ [last]) = .ok w) (hpath : Diverges v front path) : w.follow path = v.follow path
  /-- A variable in which such a change succeeds holds what comes of it, and the other variables hold what they held. -/
  written {s : Store} {c : CellId} {e : Edit} {w : Value} (hc : c < s.cells.size) (h : e.apply (s.get c) = .ok w) :
    (s.update c e.apply).1 = .ok () ∧ (s.update c e.apply).2.get c = w ∧ ∀ d, d ≠ c → (s.update c e.apply).2.get d = s.get d
  /-- Where the change fails all variables hold what they held. -/
  unwritten {s : Store} {c : CellId} {e : Edit} {cause : Cause} (h : e.apply (s.get c) = .error cause) :
    s.update c e.apply = (.error cause, s)

/-- Updates along a path change one element, or nothing if they fail. -/
theorem paths_lawful : PathsLawful where
  replaced h := follow_assocPath h
  others_kept hv hkeys h hpath := hpath.follow_assocPath hv hkeys h
  others hne h hpath := diverges_or_along h hne hpath
  removed {v w last front} hv h := by
    obtain ⟨c, c', hc, hc', hassoc⟩ := dissocPath_concat.1 h
    have hdistinct : c.Distinct := hv.follow hc
    exact ⟨c, c', hc, follow_assocPath hassoc, hdistinct.loses_of_dissoc hc'⟩
  others_left hv hkeys h hpath := by
    obtain ⟨c, c', -, -, hassoc⟩ := dissocPath_concat.1 h
    exact hpath.follow_assocPath hv hkeys hassoc
  written {s c e w} hc h := by
    unfold Store.update
    rw [h]
    refine ⟨rfl, ?_, fun d hd => ?_⟩
    · simp [Store.get, Store.set, hc]
    · simp [Store.get, Store.set, Array.getElem?_setIfInBounds_ne (Ne.symm hd)]
  unwritten {s c e cause} h := by
    unfold Store.update
    rw [h]

end Value

end DualShell
