import DualShell.Proofs.Value.Equality
import DualShell.Proofs.Value.Law

/-!
# The keys of maps

However a map came about, its keys differ, and they stand in the order in which they first came (`Value.mapOf_eq`). A
key that comes again keeps its place and takes the new value (`Value.insertPair_keys`); a key that is removed leaves the
others where they were (`Value.Distinct.dissoc_map_iff`).
-/

namespace DualShell

namespace Value

/-! ## One key -/

/-- Keys differ if no two are equal. -/
theorem keysDiffer_iff {pairs : List (Value × Value)} :
    KeysDiffer pairs ↔ (pairs.map (·.1)).Pairwise fun k k' => (k == k') = false := by
  rw [KeysDiffer, List.pairwise_map]

/-- A key that is there keeps its place, and a new one comes last. -/
theorem insertPair_keys (pairs : List (Value × Value)) (k v : Value) : (insertPair pairs k v).map (·.1) =
    if pairs.any (·.1 == k) then pairs.map (·.1) else pairs.map (·.1) ++ [k] := by
  induction pairs with
  | nil => rfl
  | cons pair rest ih =>
    obtain ⟨k', v'⟩ := pair
    unfold insertPair
    cases hk : k' == k with
    | true => simp [hk]
    | false =>
      simp only [Bool.false_eq_true, if_false, List.map_cons, List.any_cons, hk, Bool.false_or, ih]
      split <;> rfl

/-- What is in the pairs afterwards was there before, or is new. -/
theorem mem_insertPair {pairs : List (Value × Value)} {k v : Value} {p : Value × Value} (hp : p ∈ insertPair pairs k v) :
    (p.1 = k ∨ ∃ q ∈ pairs, q.1 = p.1) ∧ (p.2 = v ∨ ∃ q ∈ pairs, q.2 = p.2) := by
  induction pairs with
  | nil => cases List.mem_singleton.1 hp; exact ⟨.inl rfl, .inl rfl⟩
  | cons pair rest ih =>
    obtain ⟨k', v'⟩ := pair
    have hsame {q : Value × Value} (hq : q ∈ (k', v') :: rest) :
        (q.1 = k ∨ ∃ q' ∈ (k', v') :: rest, q'.1 = q.1) ∧ (q.2 = v ∨ ∃ q' ∈ (k', v') :: rest, q'.2 = q.2) :=
      ⟨.inr ⟨q, hq, rfl⟩, .inr ⟨q, hq, rfl⟩⟩
    unfold insertPair at hp
    split at hp
    · rcases List.mem_cons.1 hp with rfl | hp
      · exact ⟨.inr ⟨_, List.mem_cons_self, rfl⟩, .inl rfl⟩
      · exact hsame (List.mem_cons_of_mem _ hp)
    · rcases List.mem_cons.1 hp with rfl | hp
      · exact hsame List.mem_cons_self
      · obtain ⟨hk, hv⟩ := ih hp
        exact ⟨hk.imp_right fun ⟨q, hq, h⟩ => ⟨q, List.mem_cons_of_mem _ hq, h⟩,
          hv.imp_right fun ⟨q, hq, h⟩ => ⟨q, List.mem_cons_of_mem _ hq, h⟩⟩

/-- A pair with a key that is there takes the place of the first one with it. -/
theorem insertPair_of_present {front back : List (Value × Value)} {p : Value × Value} {k : Value}
    (hfront : ∀ q ∈ front, (q.1 == k) = false) (hk : (p.1 == k) = true) (v : Value) :
    insertPair (front ++ p :: back) k v = front ++ (p.1, v) :: back := by
  induction front with
  | nil => simp [insertPair, hk]
  | cons q front ih =>
    obtain ⟨hq, hrest⟩ := List.forall_mem_cons.1 hfront
    rw [List.cons_append, insertPair, if_neg (Bool.eq_false_iff.1 hq), ih hrest]
    rfl

/-- A pair with a new key comes last. -/
theorem insertPair_of_absent {pairs : List (Value × Value)} {k : Value} (h : ∀ q ∈ pairs, (q.1 == k) = false) (v : Value) :
    insertPair pairs k v = pairs ++ [(k, v)] := by
  induction pairs with
  | nil => rfl
  | cons q rest ih =>
    obtain ⟨hq, hrest⟩ := List.forall_mem_cons.1 h
    rw [insertPair, if_neg (Bool.eq_false_iff.1 hq), ih hrest]
    rfl

/-- Keys still differ when a pair is inserted. -/
theorem KeysDiffer.insertPair {pairs : List (Value × Value)} (h : KeysDiffer pairs) (k v : Value) :
    KeysDiffer (Value.insertPair pairs k v) := by
  rw [keysDiffer_iff, insertPair_keys]
  split
  · exact keysDiffer_iff.1 h
  · rename_i hnew
    refine List.pairwise_append.2 ⟨keysDiffer_iff.1 h, List.pairwise_singleton _ _, fun k' hk' x hx => ?_⟩
    obtain ⟨p, hp, rfl⟩ := List.mem_map.1 hk'
    cases List.mem_singleton.1 hx
    exact Bool.eq_false_iff.2 fun heq => hnew (List.any_eq_true.2 ⟨p, hp, heq⟩)

/-- Where a key is among pairs whose keys differ, it is in one place. -/
theorem KeysDiffer.filter_ne {front back : List (Value × Value)} {p : Value × Value} (h : KeysDiffer (front ++ p :: back))
    (hd : ∀ q ∈ front ++ p :: back, q.1.Distinct) {k : Value} (hk : (p.1 == k) = true) :
    (front ++ p :: back).filter (fun q => !(q.1 == k)) = front ++ back := by
  obtain ⟨hd, hd'⟩ := List.forall_mem_append.1 hd
  obtain ⟨hp, hd'⟩ := List.forall_mem_cons.1 hd'
  unfold KeysDiffer at h
  rw [List.pairwise_append, List.pairwise_cons] at h
  obtain ⟨-, ⟨hback, -⟩, hfront⟩ := h
  have hkept {q : Value × Value} (hne : (q.1 == k) ≠ true) : (!(q.1 == k)) = true := by simpa using hne
  have hfront' : front.filter (fun q => !(q.1 == k)) = front := List.filter_eq_self.2 fun q hq => hkept fun heq =>
    Bool.false_ne_true ((hfront q hq p List.mem_cons_self).symm.trans (beq_trans _ heq (hp.beq_symm p.1 hk)))
  have hback' : back.filter (fun q => !(q.1 == k)) = back := List.filter_eq_self.2 fun q hq => hkept fun heq =>
    Bool.false_ne_true ((hback q hq).symm.trans (beq_trans _ hk ((hd' q hq).beq_symm q.1 heq)))
  simp [List.filter_append, hfront', hback', hk]

end Value

/-- That no map has two equal keys is a law of values. -/
def Law.distinct : Law where
  value := Value.Distinct
  failure := Exception.Distinct
  string := .string
  bool := .bool
  ok := .ok
  closure := .closure
  ns := .ns
  list := ⟨fun h => by cases h with | list h => exact h, .list⟩
  emptyMap := .map .nil (List.forall_mem_nil _) (List.forall_mem_nil _)
  insert h hk hv := by
    cases h with
    | map hkeys hks hvs =>
      refine .map (hkeys.insertPair _ _) (fun p hp => ?_) fun p hp => ?_
      · rcases (Value.mem_insertPair hp).1 with rfl | ⟨q, hq, heq⟩
        · exact hk
        · exact heq ▸ hks q hq
      · rcases (Value.mem_insertPair hp).2 with rfl | ⟨q, hq, heq⟩
        · exact hv
        · exact heq ▸ hvs q hq
  remove k h := by
    cases h with
    | map hkeys hks hvs =>
      exact .map (hkeys.sublist List.filter_sublist) (fun p hp => hks p (List.mem_filter.1 hp).1) fun p hp =>
        hvs p (List.mem_filter.1 hp).1
  parts h := by
    cases h with
    | map _ hks hvs => exact fun p hp => ⟨hks p hp, hvs p hp⟩
  exception := ⟨fun h => by cases h with | exception _ h => exact h, .exception _⟩
  ofCause c := .cause c []
  ofFlow f := .flow f []
  ofReason h := .fail h
  passing place h := by
    unfold Exception.passing
    split
    · exact h
    · cases h with
      | fail h => exact .fail h
      | cause c _ => exact .cause c _
      | composite h => exact .composite h
      | flow f _ => exact .flow f _
  reason h := by cases h with | fail h => exact h
  causes h := by cases h with | composite h => exact h

namespace Value

/-! ## All keys of a map -/

/-- The value that a key was given last. -/
def latest (pairs : List (Value × Value)) (k : Value) : Value := (lookup? pairs.reverse k).getD .empty

/-- The latest value of a key is that of the last pair with the key. -/
theorem latest_append (pairs : List (Value × Value)) (k v x : Value) :
    latest (pairs ++ [(k, v)]) x = if k == x then v else latest pairs x := by
  unfold latest lookup?
  rw [List.reverse_append, List.reverse_singleton, List.singleton_append, List.find?_cons]
  cases k == x <;> rfl

/-- A key that comes last stays if none before it is equal to it. -/
theorem eraseDups_append_singleton {k : Value} (hk : k.Distinct) (ks : List Value) (hks : ∀ x ∈ ks, x.Distinct) :
    (ks ++ [k]).eraseDups = if ks.eraseDups.any (· == k) then ks.eraseDups else ks.eraseDups ++ [k] := by
  induction hn : ks.length using Nat.strong_induction_on generalizing ks with
  | _ n ih =>
  cases ks with
  | nil => simp [List.eraseDups_cons]
  | cons a rest =>
    obtain ⟨ha, hrest⟩ := List.forall_mem_cons.1 hks
    have hsymm : (k == a) = (a == k) := Bool.eq_iff_iff.2 ⟨hk.beq_symm k, ha.beq_symm a⟩
    rw [List.cons_append, List.eraseDups_cons, List.eraseDups_cons, List.filter_append, List.any_cons]
    cases hak : a == k with
    | true => simp [hsymm, hak]
    | false =>
      have hlt : (rest.filter fun b => !b == a).length < n := by
        rw [← hn]
        exact Nat.lt_succ_of_le (List.length_filter_le ..)
      have hone : [k].filter (fun b => !b == a) = [k] := by simp [hsymm, hak]
      rw [hone, ih _ hlt _ (fun x hx => hrest x (List.mem_filter.1 hx).1) rfl, Bool.false_or]
      split <;> rfl

/-- A new value for one of some keys that differ, or for one more. -/
theorem insertPair_map {ks : List Value} (hdiffer : ks.Pairwise fun x y => (x == y) = false)
    (hks : ∀ x ∈ ks, x.Distinct) {k : Value}
    (hk : k.Distinct) (f : Value → Value) (v : Value) : insertPair (ks.map fun x => (x, f x)) k v =
      (if ks.any (· == k) then ks else ks ++ [k]).map fun x => (x, if k == x then v else f x) := by
  induction ks with
  | nil => simp [insertPair, beq_refl]
  | cons a rest ih =>
    obtain ⟨ha, hrest⟩ := List.forall_mem_cons.1 hks
    obtain ⟨hfirst, hlater⟩ := List.pairwise_cons.1 hdiffer
    have hsymm : (k == a) = (a == k) := Bool.eq_iff_iff.2 ⟨hk.beq_symm k, ha.beq_symm a⟩
    rw [List.map_cons, insertPair, List.any_cons]
    cases hak : a == k with
    | true =>
      have hothers : ∀ x ∈ rest, (k == x) = false := fun x hx => Bool.eq_false_iff.2 fun hkx =>
        Bool.false_ne_true ((hfirst x hx).symm.trans (beq_trans a hak hkx))
      have hsame : (rest.map fun x => (x, f x)) = rest.map fun x => (x, if k == x then v else f x) :=
        List.map_congr_left fun x hx => by rw [if_neg (Bool.eq_false_iff.1 (hothers x hx))]
      simp [hsymm, hak, hsame]
    | false =>
      have hka : (k == a) = false := hsymm.trans hak
      rw [if_neg Bool.false_ne_true, ih hlater hrest, Bool.false_or]
      split <;> simp [hka]

/-- A map that is made of pairs has each key once. -/
theorem foldl_insertPair_keys {ps : List (Value × Value)} (h : ∀ p ∈ ps, p.1.Distinct) :
    KeysDiffer (ps.foldl (fun out p => insertPair out p.1 p.2) []) ∧
      ∀ p ∈ ps.foldl (fun out p => insertPair out p.1 p.2) [], p.1.Distinct := by
  refine List.foldlRecOn (motive := fun out => KeysDiffer out ∧ ∀ p ∈ out, p.1.Distinct) ps _ ⟨.nil,
    List.forall_mem_nil _⟩ ?_
  intro out ⟨hdiffer, hout⟩ p hp
  refine ⟨hdiffer.insertPair _ _, fun q hq => ?_⟩
  rcases (mem_insertPair hq).1 with heq | ⟨r, hr, heq⟩
  · exact heq ▸ h p hp
  · exact heq ▸ hout r hr

/-- The map of some pairs has their keys, each at its first place and with its latest value. -/
theorem mapOf_eq (ps : List (Value × Value)) (h : ∀ p ∈ ps, p.1.Distinct) :
    mapOf ps = .map ((ps.map (·.1)).eraseDups.map fun k => (k, latest ps k)) := by
  unfold mapOf
  congr 1
  induction ps using List.reverseRecOn with
  | nil => rfl
  | append_singleton ps p ih =>
    obtain ⟨k, v⟩ := p
    have hps : ∀ p ∈ ps, p.1.Distinct := fun p hp => h p (List.mem_append_left _ hp)
    have hk : k.Distinct := h (k, v) (List.mem_append_right _ (List.mem_singleton_self _))
    have hkeys := foldl_insertPair_keys hps
    rw [ih hps, keysDiffer_iff, List.map_map] at hkeys
    obtain ⟨hdiffer, hdistinct⟩ := hkeys
    have hid : ((fun p : Value × Value => p.1) ∘ fun k => (k, latest ps k)) = id := rfl
    rw [hid, List.map_id] at hdiffer
    have hmem : ∀ x ∈ (ps.map (·.1)).eraseDups, x.Distinct := fun x hx => hdistinct _ (List.mem_map_of_mem hx)
    rw [List.foldl_append, List.foldl_cons, List.foldl_nil, ih hps, insertPair_map hdiffer hmem hk, List.map_append,
      List.map_cons, List.map_nil, eraseDups_append_singleton hk _ fun x hx => ?_]
    · exact List.map_congr_left fun x _ => by rw [latest_append]
    · obtain ⟨p, hp, rfl⟩ := List.mem_map.1 hx
      exact hps p hp

/-- The map of some pairs comes about one by one. -/
theorem mapOf_foldlM (ps : List (Value × Value)) :
    ps.foldlM (fun m p => Value.assoc m p.1 p.2) (.map []) = (.ok (mapOf ps) : Except Cause Value) := by
  suffices hfold : ∀ out : List (Value × Value), ps.foldlM (fun m p => Value.assoc m p.1 p.2) (.map out) =
      (.ok (.map (ps.foldl (fun out p => insertPair out p.1 p.2) out)) : Except Cause Value) from hfold []
  induction ps with
  | nil => exact fun _ => rfl
  | cons p ps ih => exact fun out => ih _

/-- Removing a key from a map takes out one pair and keeps the others in order. -/
theorem Distinct.dissoc_map_iff {pairs : List (Value × Value)} (h : (Value.map pairs).Distinct) {k v : Value} :
    (Value.map pairs).dissoc k = .ok v ↔
      ∃ front p back, pairs = front ++ p :: back ∧ (p.1 == k) = true ∧ v = .map (front ++ back) := by
  cases h with
  | map hkeys hks hvs =>
  unfold Value.dissoc
  dsimp only
  constructor
  · intro hv
    by_cases hex : ∃ p ∈ pairs, (p.1 == k) = true
    · obtain ⟨p, hp, hpk⟩ := hex
      obtain ⟨front, back, rfl⟩ := List.append_of_mem hp
      rw [hkeys.filter_ne hks hpk] at hv
      split at hv
      · nomatch hv
      · cases hv
        exact ⟨front, p, back, rfl, hpk, rfl⟩
    · have hall : pairs.filter (fun p => !(p.1 == k)) = pairs := List.filter_eq_self.2 fun p hp => by
        simpa using fun hpk => hex ⟨p, hp, hpk⟩
      rw [hall, if_pos (beq_self_eq_true _)] at hv
      nomatch hv
  · rintro ⟨front, p, back, rfl, hpk, rfl⟩
    rw [hkeys.filter_ne hks hpk, if_neg (by simp)]
    rfl

end Value

end DualShell
