import Mathlib.Logic.Relation
import DualShell.Proofs.Value.Lookup
import DualShell.Proofs.Value.Position

/-!
# Equal values in each other's place

Equality is an equivalence, it does not see in which order the pairs of a map stand, at any depth (`Value.Reorders`),
and one cannot tell equal keys apart: what is found under them, and what comes of giving them a value or of removing
them, is equal as well (`Value.equality_lawful`).
-/

namespace DualShell

/-! ## Maps in another order -/

mutual

/-- The second value is the first with the pairs of one map in it, at any depth, in another order. -/
inductive Value.Reorders : Value → Value → Prop
  | pairs {ps qs : List (Value × Value)} (h : ps.Perm qs) : Value.Reorders (.map ps) (.map qs)
  | item {front back : List Value} {v w : Value} (h : Value.Reorders v w) :
      Value.Reorders (.list (front ++ v :: back)) (.list (front ++ w :: back))
  | key {front back : List (Value × Value)} {k k' v : Value} (h : Value.Reorders k k') :
      Value.Reorders (.map (front ++ (k, v) :: back)) (.map (front ++ (k', v) :: back))
  | value {front back : List (Value × Value)} {k v w : Value} (h : Value.Reorders v w) :
      Value.Reorders (.map (front ++ (k, v) :: back)) (.map (front ++ (k, w) :: back))
  | exception {identity : Nat} {e e' : Exception} (h : Exception.Reorders e e') :
      Value.Reorders (.exception identity e) (.exception identity e')

/-- The second failure is the first with the pairs of one map in another order. -/
inductive Exception.Reorders : Exception → Exception → Prop
  | reason {v w : Value} {trace : List Place} (h : Value.Reorders v w) : Exception.Reorders ⟨.fail v, trace⟩ ⟨.fail w, trace⟩
  | part {front back : List Exception} {e e' : Exception} {trace : List Place} (h : Exception.Reorders e e') :
      Exception.Reorders ⟨.composite (front ++ e :: back), trace⟩ ⟨.composite (front ++ e' :: back), trace⟩

end

mutual

/-- A value that reorders another one is reordered by it. -/
theorem Value.Reorders.symm {v w : Value} : v.Reorders w → w.Reorders v
  | .pairs h => .pairs h.symm
  | .item h => .item h.symm
  | .key h => .key h.symm
  | .value h => .value h.symm
  | .exception h => .exception h.symm

/-- An exception that reorders another one is reordered by it. -/
theorem Exception.Reorders.symm {e e' : Exception} : e.Reorders e' → e'.Reorders e
  | .reason h => .reason h.symm
  | .part h => .part h.symm

end

namespace Value

variable {v w v' w' k k' : Value} {ps qs : List (Value × Value)} {xs ys : List Value}

/-- Items of two lists are equal if those of their parts are. -/
theorem beqItems_append {xs' ys' : List Value} (h : List.Forall₂ (fun x y => x == y) xs ys)
    (h' : List.Forall₂ (fun x y => x == y) xs' ys') : List.Forall₂ (fun x y => x == y) (xs ++ xs') (ys ++ ys') :=
  List.rel_append h h'

/-- A list with an item replaced by an equal one. -/
theorem beq_list_item (front back : List Value) (h : (v == w) = true) :
    (Value.list (front ++ v :: back) == .list (front ++ w :: back)) = true :=
  beq_list.2 (beqItems_append (beqItems_refl front) (.cons h (beqItems_refl back)))

/-- A map with a pair replaced by an equal one. -/
theorem beq_map_pair (front back : List (Value × Value)) {p q : Value × Value} (h : PairEq p q) :
    (Value.map (front ++ p :: back) == .map (front ++ q :: back)) = true := by
  refine beq_map.2 ⟨by simp, fun r hr => ?_⟩
  have hself : PairEq r r := pairEq_refl _ r hr
  rcases List.mem_append.1 hr with hfront | hrest
  · exact ⟨r, List.mem_append_left _ hfront, hself⟩
  · rcases List.mem_cons.1 hrest with rfl | hback
    · exact ⟨q, List.mem_append_right _ List.mem_cons_self, h⟩
    · exact ⟨r, List.mem_append_right _ (List.mem_cons_of_mem _ hback), hself⟩

/-- Values that differ in the order of keys are equal. -/
theorem Reorders.beq : ∀ {v w : Value}, v.Reorders w → (v == w) = true
  | _, _, .pairs h => beq_map.2 ⟨h.length_eq, fun p hp => ⟨p, h.mem_iff.1 hp, pairEq_refl _ p hp⟩⟩
  | _, _, .item h => beq_list_item _ _ h.beq
  | _, _, .key h => beq_map_pair _ _ ⟨h.beq, beq_refl _⟩
  | _, _, .value h => beq_map_pair _ _ ⟨beq_refl _, h.beq⟩
  | _, _, .exception _ => beq_exception.2 rfl

/-- A value whose maps are in another order is equal to it, and it to the value. -/
theorem reordered_beq (h : Relation.ReflTransGen Reorders v w) : (v == w) = true ∧ (w == v) = true := by
  induction h with
  | refl => exact ⟨beq_refl v, beq_refl v⟩
  | tail _ hstep ih =>
    obtain ⟨hthere, hback⟩ := ih
    exact ⟨beq_trans _ hthere hstep.beq, beq_trans _ hstep.symm.beq hback⟩

/-! ## Outcomes -/

/-- Both computations give equal values, or both fail in the same way. -/
inductive Agree : Except Cause Value → Except Cause Value → Prop
  | ok {v w : Value} (h : (v == w) = true) : Agree (.ok v) (.ok w)
  | error {c d : Cause} (h : c.tag = d.tag) : Agree (.error c) (.error d)

/-- What agrees for the texts of equal keys agrees for the keys; other keys than texts are refused. -/
theorem Agree.ofText (hk : (k == k') = true) {what : String} {f g : String → Except Cause Value}
    (h : ∀ s, Agree (f s) (g s)) : Agree (k.expectString what >>= f) (k'.expectString what >>= g) := by
  cases k with
  | string s =>
    cases k' with
    | string t =>
      cases beq_string.1 hk
      exact h s
    | _ => cases hk
  | _ =>
    cases k' with
    | string t => cases hk
    | _ => exact .error rfl

/-- What agrees for the elements of two lists as long agrees for the lists. -/
theorem Agree.ofElement {n m : Nat} (hn : n = m) {key : String} {f g : Nat → Except Cause Value}
    (h : ∀ i, i < n → Agree (f i) (g i)) : Agree (Position.element key n >>= f) (Position.element key m >>= g) := by
  subst hn
  cases hplace : Position.element key n with
  | error c => exact .error rfl
  | ok i =>
    obtain ⟨_, _, _, hlt⟩ := Position.element_eq_ok.1 hplace
    exact h i hlt

/-! ## Giving a value -/

/-- Equal values may be set in equal lists. -/
theorem beqItems_set (h : List.Forall₂ (fun x y => x == y) xs ys) (hv : (v == w) = true) (i : Nat) :
    List.Forall₂ (fun x y => x == y) (xs.set i v) (ys.set i w) := by
  induction h generalizing i with
  | nil => exact .nil
  | cons hxy hrest ih =>
    cases i with
    | zero => exact .cons hv hrest
    | succ i => exact .cons hxy (ih i)

/-- Equal lists stay so without the items at one position. -/
theorem beqItems_eraseIdx (h : List.Forall₂ (fun x y => x == y) xs ys) (i : Nat) :
    List.Forall₂ (fun x y => x == y) (xs.eraseIdx i) (ys.eraseIdx i) := by
  induction h generalizing i with
  | nil => exact .nil
  | cons hxy hrest ih =>
    cases i with
    | zero => exact hrest
    | succ i => exact .cons hxy (ih i)

/-- Where the keys of equal maps are equal, what is not found in one is not found in the other. -/
theorem Distinct.lookup?_none_iff (hps : (Value.map ps).Distinct) (hqs : (Value.map qs).Distinct)
    (h : (Value.map ps == Value.map qs) = true) (hk : k.Distinct) (hkk : (k == k') = true) :
    lookup? ps k = none ↔ lookup? qs k' = none := by
  constructor
  · intro hnone
    by_contra hsome
    obtain ⟨w, hw⟩ := Option.ne_none_iff_exists'.1 hsome
    obtain ⟨v, hv, -⟩ := hqs.lookup?_congr hps (hps.beq_symm _ h) (hk.beq_symm k hkk) hw
    rw [hnone] at hv
    cases hv
  · intro hnone
    by_contra hsome
    obtain ⟨v, hv⟩ := Option.ne_none_iff_exists'.1 hsome
    obtain ⟨w, hw, -⟩ := hps.lookup?_congr hqs h hkk hv
    rw [hnone] at hw
    cases hw

/-- Equal maps in which equal keys are given equal values are equal. -/
theorem Distinct.insertPair_congr (hps : (Value.map ps).Distinct) (hqs : (Value.map qs).Distinct)
    (h : (Value.map ps == Value.map qs) = true) (hk : k.Distinct) (hk' : k'.Distinct) (hkk : (k == k') = true)
    (hv : v.Distinct) (hw : w.Distinct) (hvw : (v == w) = true) :
    (Value.map (Value.insertPair ps k v) == Value.map (Value.insertPair qs k' w)) = true := by
  refine beq_map_of_lookup (hps.insertPair hk hv) (hqs.insertPair hk' hw) ?_ fun x u hu => ?_
  · rw [length_insertPair, length_insertPair, (beq_map.1 h).1]
    simp only [hps.lookup?_none_iff hqs h hk hkk]
  · cases hkx : k == x with
    | true =>
      have hkx' : (k' == x) = true := hk.beq_of_meets hkk hkx
      rw [lookup?_insertPair_same hk hkx] at hu
      cases hu
      exact ⟨w, lookup?_insertPair_same hk' hkx', hvw⟩
    | false =>
      have hkx' : (k' == x) = false := Bool.eq_false_iff.2 fun hx => Bool.false_ne_true (hkx.symm.trans (beq_trans k hkk hx))
      rw [lookup?_insertPair_other (fun p hp => (hps.parts.2 p hp).1) hkx] at hu
      rw [lookup?_insertPair_other (fun p hp => (hqs.parts.2 p hp).1) hkx']
      exact hps.lookup?_congr hqs h (beq_refl x) hu

/-- Equal maps from which equal keys are removed are equal. -/
theorem Distinct.removed_congr (hps : (Value.map ps).Distinct) (hqs : (Value.map qs).Distinct)
    (h : (Value.map ps == Value.map qs) = true) (hk : k.Distinct) (hkk : (k == k') = true) :
    Agree ((Value.map ps).dissoc k) ((Value.map qs).dissoc k') := by
  have hnone := hps.lookup?_none_iff hqs h hk hkk
  cases hp : lookup? ps k with
  | none =>
    rw [dissoc_map_absent hp, dissoc_map_absent (hnone.1 hp)]
    exact .error rfl
  | some u =>
    obtain ⟨u', hq⟩ := Option.ne_none_iff_exists'.1 fun hq => Option.some_ne_none u (hp.symm.trans (hnone.2 hq))
    obtain ⟨hremoved, hlen⟩ := hps.dissoc_map_present hp
    obtain ⟨hremoved', hlen'⟩ := hqs.dissoc_map_present hq
    rw [hremoved, hremoved']
    have hsame := (beq_map.1 h).1
    refine .ok (beq_map_of_lookup (Law.distinct.remove k hps) (Law.distinct.remove k' hqs) (by omega) fun x u hu => ?_)
    cases hkx : k == x with
    | true =>
      rw [lookup?_removed_same hk hkx] at hu
      cases hu
    | false =>
      have hkx' : (k' == x) = false := Bool.eq_false_iff.2 fun hx => Bool.false_ne_true (hkx.symm.trans (beq_trans k hkk hx))
      rw [lookup?_removed_other (fun p hp => (hps.parts.2 p hp).1) hkx] at hu
      rw [lookup?_removed_other (fun p hp => (hqs.parts.2 p hp).1) hkx']
      exact hps.lookup?_congr hqs h (beq_refl x) hu

/-- Equal maps have equal values under equal keys. -/
theorem Distinct.index_congr (hps : (Value.map ps).Distinct) (hqs : (Value.map qs).Distinct)
    (h : (Value.map ps == Value.map qs) = true) (hk : k.Distinct) (hkk : (k == k') = true) :
    Agree ((Value.map ps).index k) ((Value.map qs).index k') := by
  have hnone := hps.lookup?_none_iff hqs h hk hkk
  rw [index_map, index_map]
  cases hp : lookup? ps k with
  | none =>
    rw [hnone.1 hp]
    exact .error rfl
  | some v =>
    obtain ⟨w, hw, hvw⟩ := hps.lookup?_congr hqs h hkk hp
    rw [hw]
    exact .ok hvw

/-- Equal values may be given equal values under equal keys. -/
theorem Distinct.assoc_congr (hv : v.Distinct) (hv' : v'.Distinct) (h : (v == v') = true) (hk : k.Distinct)
    (hk' : k'.Distinct) (hkk : (k == k') = true) (hw : w.Distinct) (hw' : w'.Distinct) (hww : (w == w') = true) :
    Agree (v.assoc k w) (v'.assoc k' w') := by
  cases v with
  | list xs =>
    cases v' with
    | list ys =>
      have hitems := beq_list.1 h
      refine .ofText hkk fun s => .ofElement hitems.length_eq fun i hi => .ok (beq_list.2 ?_)
      exact beqItems_set hitems hww i
    | _ => cases h
  | map ps =>
    cases v' with
    | map qs => exact .ok (hv.insertPair_congr hv' h hk hk' hkk hw hw' hww)
    | _ => cases h
  | _ =>
    cases v' with
    | list ys => cases h
    | map qs => cases h
    | _ => exact .error rfl

/-- Equal values may be rid of equal keys. -/
theorem Distinct.dissoc_congr (hv : v.Distinct) (hv' : v'.Distinct) (h : (v == v') = true) (hk : k.Distinct)
    (hkk : (k == k') = true) : Agree (v.dissoc k) (v'.dissoc k') := by
  cases v with
  | list xs =>
    cases v' with
    | list ys =>
      have hitems := beq_list.1 h
      refine .ofText hkk fun s => .ofElement hitems.length_eq fun i hi => .ok (beq_list.2 ?_)
      exact beqItems_eraseIdx hitems i
    | _ => cases h
  | map ps =>
    cases v' with
    | map qs => exact hv.removed_congr hv' h hk hkk
    | _ => cases h
  | _ =>
    cases v' with
    | list ys => cases h
    | map qs => cases h
    | _ => exact .error rfl

/-! ## The laws -/

/-- What holds of the equality of values in which the keys of each map differ. -/
structure EqualityLawful : Prop where
  refl (v : Value) : (v == v) = true
  symm {v w : Value} (hv : v.Distinct) (h : (v == w) = true) : (w == v) = true
  trans {u v w : Value} (h : (u == v) = true) (h' : (v == w) = true) : (u == w) = true
  /-- The order of the pairs is not seen, at any depth and on either side. -/
  reordered {v v' w w' : Value} (hv : Relation.ReflTransGen Reorders v v') (hw : Relation.ReflTransGen Reorders w w') :
    (v == w) = (v' == w')
  /-- Equal keys find equal values in equal maps. -/
  index {ps qs : List (Value × Value)} {k k' : Value} (hps : (Value.map ps).Distinct) (hqs : (Value.map qs).Distinct)
    (h : (Value.map ps == .map qs) = true) (hk : k.Distinct) (hkk : (k == k') = true) :
    Agree ((Value.map ps).index k) ((Value.map qs).index k')
  /-- Giving equal values to equal keys of equal values. -/
  assoc {v v' k k' w w' : Value} (hv : v.Distinct) (hv' : v'.Distinct) (h : (v == v') = true) (hk : k.Distinct)
    (hk' : k'.Distinct)
    (hkk : (k == k') = true) (hw : w.Distinct) (hw' : w'.Distinct) (hww : (w == w') = true) :
    Agree (v.assoc k w) (v'.assoc k' w')
  /-- Removing equal keys from equal values. -/
  dissoc {v v' k k' : Value} (hv : v.Distinct) (hv' : v'.Distinct) (h : (v == v') = true) (hk : k.Distinct)
    (hkk : (k == k') = true) : Agree (v.dissoc k) (v'.dissoc k')

/-- Equality is an equivalence that neither the order of pairs nor a change of equal keys disturbs. -/
theorem equality_lawful : EqualityLawful where
  refl := beq_refl
  symm hv h := hv.beq_symm _ h
  trans h h' := beq_trans _ h h'
  reordered {v v' w w'} hv hw := by
    obtain ⟨hthere, hback⟩ := reordered_beq hv
    obtain ⟨hthere', hback'⟩ := reordered_beq hw
    refine Bool.eq_iff_iff.2 ⟨fun h => ?_, fun h => ?_⟩
    · exact beq_trans v' hback (beq_trans v h hthere')
    · exact beq_trans v hthere (beq_trans v' h hback')
  index hps hqs h hk hkk := hps.index_congr hqs h hk hkk
  assoc hv hv' h hk hk' hkk hw hw' hww := hv.assoc_congr hv' h hk hk' hkk hw hw' hww
  dissoc hv hv' h hk hkk := hv.dissoc_congr hv' h hk hkk

end Value

end DualShell
