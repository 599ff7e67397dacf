import Mathlib.Data.List.Basic
import Mathlib.Data.Fintype.EquivFin
import DualShell.Value.Equality

/-!
# Equality of values is an equivalence

Equality is reflexive and transitive on all values. That it is symmetric rests on the maps: one map covers another of
the same length, so the second covers the first only if no two pairs of the first meet the same pair of the second.
Where no map has two equal keys (`Value.Distinct`) they cannot, and equality is symmetric (`Value.Distinct.beq_symm`).
-/

namespace DualShell

/-- No two of the pairs have equal keys. -/
def Value.KeysDiffer (pairs : List (Value × Value)) : Prop := pairs.Pairwise fun p q => (p.1 == q.1) = false

mutual

/-- No map in a value has two equal keys, however deep one looks. -/
inductive Value.Distinct : Value → Prop
  | string (s : String) : Value.Distinct (.string s)
  | bool (b : Bool) : Value.Distinct (.bool b)
  | list {items : List Value} (h : ∀ v ∈ items, Value.Distinct v) : Value.Distinct (.list items)
  | map {pairs : List (Value × Value)} (hkeys : Value.KeysDiffer pairs) (hk : ∀ p ∈ pairs, Value.Distinct p.1)
      (hv : ∀ p ∈ pairs, Value.Distinct p.2) : Value.Distinct (.map pairs)
  | closure (c : Closure) : Value.Distinct (.closure c)
  | ok : Value.Distinct .ok
  | exception (identity : Nat) {e : Exception} (h : Exception.Distinct e) : Value.Distinct (.exception identity e)
  | ns (n : Namespace) : Value.Distinct (.ns n)

/-- No map in a failure has two equal keys. -/
inductive Exception.Distinct : Exception → Prop
  | fail {reason : Value} {trace : List Place} (h : Value.Distinct reason) : Exception.Distinct ⟨.fail reason, trace⟩
  | cause (c : Cause) (trace : List Place) : Exception.Distinct ⟨.cause c, trace⟩
  | composite {es : List Exception} {trace : List Place} (h : ∀ e ∈ es, Exception.Distinct e) :
      Exception.Distinct ⟨.composite es, trace⟩
  | flow (f : Flow) (trace : List Place) : Exception.Distinct ⟨.flow f, trace⟩

end

namespace Value

/-! ## Lists and maps -/

/-- Lists are equal item by item. -/
theorem beqItems_iff {xs ys : List Value} : beqItems xs ys = true ↔ List.Forall₂ (fun x y => x == y) xs ys := by
  induction xs generalizing ys with
  | nil => cases ys <;> simp [beqItems]
  | cons x xs ih =>
    cases ys with
    | nil => simp [beqItems]
    | cons y ys => simp only [beqItems, Bool.and_eq_true, List.forall₂_cons, ih]; rfl

/-- Two pairs are equal in their keys and in their values. -/
def PairEq (p q : Value × Value) : Prop := (p.1 == q.1) = true ∧ (p.2 == q.2) = true

/-- Pairs are covered by others if each is among them. -/
theorem coveredBy_iff {ps qs : List (Value × Value)} : coveredBy ps qs = true ↔ ∀ p ∈ ps, ∃ q ∈ qs, PairEq p q := by
  induction ps with
  | nil => simp [coveredBy]
  | cons p ps ih =>
    obtain ⟨k, v⟩ := p
    simp only [coveredBy, Bool.and_eq_true, List.any_eq_true, List.forall_mem_cons, ih]
    rfl

theorem beq_list {xs ys : List Value} : (Value.list xs == .list ys) = true ↔ List.Forall₂ (fun x y => x == y) xs ys :=
  (beqItems_iff : beqItems xs ys = true ↔ _)

/-- Maps are equal if they have as many pairs and those of one are among those of the other. -/
theorem beq_map {ps qs : List (Value × Value)} :
    (Value.map ps == .map qs) = true ↔ ps.length = qs.length ∧ ∀ p ∈ ps, ∃ q ∈ qs, PairEq p q := by
  have hbeq : (Value.map ps == .map qs) = (ps.length == qs.length && coveredBy ps qs) := rfl
  rw [hbeq, Bool.and_eq_true, beq_iff_eq, coveredBy_iff]

theorem beq_string {a b : String} : (Value.string a == .string b) = true ↔ a = b :=
  (beq_iff_eq : (a == b) = true ↔ a = b)

theorem beq_bool {a b : Bool} : (Value.bool a == .bool b) = true ↔ a = b :=
  (beq_iff_eq : (a == b) = true ↔ a = b)

theorem beq_closure {a b : Closure} : (Value.closure a == .closure b) = true ↔ a.identity = b.identity :=
  (beq_iff_eq : (a.identity == b.identity) = true ↔ a.identity = b.identity)

theorem beq_exception {i j : Nat} {e e' : Exception} : (Value.exception i e == .exception j e') = true ↔ i = j :=
  (beq_iff_eq : (i == j) = true ↔ i = j)

theorem beq_ns {a b : Namespace} : (Value.ns a == .ns b) = true ↔ a.identity = b.identity :=
  (beq_iff_eq : (a.identity == b.identity) = true ↔ a.identity = b.identity)

theorem beq_ok : (Value.ok == .ok) = true := rfl

/-! ## Reflexivity and transitivity -/

mutual

/-- A value equals itself. -/
theorem beq_refl : (v : Value) → (v == v) = true
  | .string _ => beq_string.2 rfl
  | .bool _ => beq_bool.2 rfl
  | .list items => beq_list.2 (beqItems_refl items)
  | .map pairs => beq_map.2 ⟨rfl, fun p hp => ⟨p, hp, pairEq_refl pairs p hp⟩⟩
  | .closure _ => beq_closure.2 rfl
  | .ok => beq_ok
  | .exception _ _ => beq_exception.2 rfl
  | .ns _ => beq_ns.2 rfl

/-- Items equal themselves. -/
theorem beqItems_refl : (vs : List Value) → List.Forall₂ (fun x y => x == y) vs vs
  | [] => .nil
  | v :: vs => .cons (beq_refl v) (beqItems_refl vs)

/-- Pairs equal themselves. -/
theorem pairEq_refl : (ps : List (Value × Value)) → ∀ p ∈ ps, PairEq p p
  | [] => List.forall_mem_nil _
  | (k, v) :: ps => List.forall_mem_cons.2 ⟨⟨beq_refl k, beq_refl v⟩, pairEq_refl ps⟩

end

mutual

/-- Equality goes on from value to value. -/
theorem beq_trans : (a : Value) → ∀ {b c : Value}, (a == b) = true → (b == c) = true → (a == c) = true
  | .string _, .string _, .string _, hab, hbc => beq_string.2 ((beq_string.1 hab).trans (beq_string.1 hbc))
  | .bool _, .bool _, .bool _, hab, hbc => beq_bool.2 ((beq_bool.1 hab).trans (beq_bool.1 hbc))
  | .list xs, .list _, .list _, hab, hbc => beq_list.2 (beqItems_trans xs (beq_list.1 hab) (beq_list.1 hbc))
  | .map ps, .map _, .map _, hab, hbc => by
    obtain ⟨hlen, hcovered⟩ := beq_map.1 hab
    obtain ⟨hlen', hcovered'⟩ := beq_map.1 hbc
    refine beq_map.2 ⟨hlen.trans hlen', fun p hp => ?_⟩
    obtain ⟨q, hq, hpq⟩ := hcovered p hp
    obtain ⟨r, hr, hqr⟩ := hcovered' q hq
    exact ⟨r, hr, pairEq_trans ps p hp hpq hqr⟩
  | .closure _, .closure _, .closure _, hab, hbc => beq_closure.2 ((beq_closure.1 hab).trans (beq_closure.1 hbc))
  | .ok, .ok, .ok, _, _ => beq_ok
  | .exception _ _, .exception _ _, .exception _ _, hab, hbc =>
    beq_exception.2 ((beq_exception.1 hab).trans (beq_exception.1 hbc))
  | .ns _, .ns _, .ns _, hab, hbc => beq_ns.2 ((beq_ns.1 hab).trans (beq_ns.1 hbc))

/-- Equality goes on from items to items. -/
theorem beqItems_trans : (xs : List Value) → ∀ {ys zs : List Value}, List.Forall₂ (fun x y => x == y) xs ys →
    List.Forall₂ (fun x y => x == y) ys zs → List.Forall₂ (fun x y => x == y) xs zs
  | [], _, _, .nil, .nil => .nil
  | x :: xs, _, _, .cons hxy hxs, .cons hyz hys => .cons (beq_trans x hxy hyz) (beqItems_trans xs hxs hys)

/-- Equality goes on from pair to pair. -/
theorem pairEq_trans : (ps : List (Value × Value)) → ∀ p ∈ ps, ∀ {q r : Value × Value}, PairEq p q → PairEq q r → PairEq p r
  | [] => fun _ hp => absurd hp List.not_mem_nil
  | (k, v) :: ps => fun p hp {_ _} hpq hqr => by
    rcases List.mem_cons.1 hp with rfl | hp
    · exact ⟨beq_trans k hpq.1 hqr.1, beq_trans v hpq.2 hqr.2⟩
    · exact pairEq_trans ps p hp hpq hqr

end

end Value

/-! ## Symmetry -/

/-- If all of a list are matched in a list as long, and no two to the same, then all of the other list are matched. -/
theorem ListAux.matched_back {α β : Type} {R : α → β → Prop} {xs : List α} {ys : List β} (hlen : xs.length = ys.length)
    (hmatched : ∀ x ∈ xs, ∃ y ∈ ys, R x y) (hapart : xs.Pairwise fun x x' => ∀ y ∈ ys, R x y → ¬R x' y) :
    ∀ y ∈ ys, ∃ x ∈ xs, R x y := by
  have hindex : ∀ i : Fin xs.length, ∃ j : Fin xs.length, R xs[i] (ys.get ⟨j, hlen ▸ j.2⟩) := fun i => by
    obtain ⟨y, hy, hxy⟩ := hmatched xs[i] (List.getElem_mem _)
    obtain ⟨j, hj, rfl⟩ := List.mem_iff_getElem.1 hy
    exact ⟨⟨j, hlen ▸ hj⟩, hxy⟩
  choose f hf using hindex
  have hinj : Function.Injective f := fun i i' hii' => by
    by_contra hne
    rw [List.pairwise_iff_getElem] at hapart
    rcases Nat.lt_or_gt_of_ne (Fin.val_ne_of_ne hne) with hlt | hlt
    · exact hapart i i' i.2 i'.2 hlt _ (List.getElem_mem _) (hf i) (hii' ▸ hf i')
    · exact hapart i' i i'.2 i.2 hlt _ (List.getElem_mem _) (hf i') (hii' ▸ hf i)
  intro y hy
  obtain ⟨j, hj, rfl⟩ := List.mem_iff_getElem.1 hy
  obtain ⟨i, hi⟩ := Finite.injective_iff_surjective.1 hinj ⟨j, hlen ▸ hj⟩
  exact ⟨xs[i], List.getElem_mem _, by simpa [hi] using hf i⟩

namespace Value.Distinct

mutual

/-- Equality goes both ways if no map has a key twice. -/
theorem beq_symm : (a : Value) → a.Distinct → ∀ {b : Value}, (a == b) = true → (b == a) = true
  | .string _, _, .string _, h => beq_string.2 (beq_string.1 h).symm
  | .bool _, _, .bool _, h => beq_bool.2 (beq_bool.1 h).symm
  | .list xs, .list hxs, .list _, h => beq_list.2 (beqItems_symm xs hxs (beq_list.1 h))
  | .map ps, .map hkeys hk hv, .map qs, h => by
    obtain ⟨hlen, hcovered⟩ := beq_map.1 h
    have hsymm := pairEq_symm ps fun p hp => ⟨hk p hp, hv p hp⟩
    -- two pairs that meet the same pair have equal keys
    have hapart : ps.Pairwise fun p p' => ∀ q ∈ qs, PairEq p q → ¬PairEq p' q :=
      hkeys.imp_of_mem fun _ hp' hne q _ hpq hpq' =>
      Bool.false_ne_true (hne.symm.trans (beq_trans _ hpq.1 (hsymm _ hp' hpq').1))
    refine beq_map.2 ⟨hlen.symm, fun q hq => ?_⟩
    obtain ⟨p, hp, hpq⟩ := ListAux.matched_back hlen hcovered hapart q hq
    exact ⟨p, hp, hsymm p hp hpq⟩
  | .closure _, _, .closure _, h => beq_closure.2 (beq_closure.1 h).symm
  | .ok, _, .ok, _ => beq_ok
  | .exception _ _, _, .exception _ _, h => beq_exception.2 (beq_exception.1 h).symm
  | .ns _, _, .ns _, h => beq_ns.2 (beq_ns.1 h).symm

/-- Equality of items goes both ways. -/
theorem beqItems_symm : (xs : List Value) → (∀ x ∈ xs, x.Distinct) → ∀ {ys : List Value},
    List.Forall₂ (fun x y => x == y) xs ys → List.Forall₂ (fun x y => x == y) ys xs
  | [], _, _, .nil => .nil
  | x :: xs, h, _, .cons hxy hxs =>
    .cons (beq_symm x (h x List.mem_cons_self) hxy) (beqItems_symm xs (fun x hx => h x (List.mem_cons_of_mem _ hx)) hxs)

/-- Equality of pairs goes both ways. -/
theorem pairEq_symm : (ps : List (Value × Value)) → (∀ p ∈ ps, p.1.Distinct ∧ p.2.Distinct) →
    ∀ p ∈ ps, ∀ {q : Value × Value}, PairEq p q → PairEq q p
  | [], _ => fun _ hp => absurd hp List.not_mem_nil
  | (k, v) :: ps, h => fun p hp {_} hpq => by
    rcases List.mem_cons.1 hp with rfl | hp
    · obtain ⟨hk, hv⟩ := h _ List.mem_cons_self
      exact ⟨beq_symm k hk hpq.1, beq_symm v hv hpq.2⟩
    · exact pairEq_symm ps (fun p hp => h p (List.mem_cons_of_mem _ hp)) p hp hpq

end

end Value.Distinct

end DualShell
