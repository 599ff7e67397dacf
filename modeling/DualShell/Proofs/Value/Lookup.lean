import DualShell.Proofs.Value.Keys

/-!
# What is found under a key

A map is what it has under its keys. Giving a key a value changes what is found under the keys equal to it and nothing
else (`Value.lookup?_insertPair_same`, `Value.lookup?_insertPair_other`), and so does removing one. Where the keys of
two maps differ, the maps are equal if they are as long and what is found in one is found in the other
(`Value.beq_map_of_lookup`).
-/

namespace DualShell

namespace Value

variable {v w k x : Value} {ps qs : List (Value × Value)}

/-! ## Keys that are equal -/

/-- Equal values are equal to the same values. -/
theorem Distinct.beq_congr (hv : v.Distinct) (h : (v == w) = true) (x : Value) : (x == v) = (x == w) :=
  Bool.eq_iff_iff.2 ⟨fun hx => beq_trans x hx h, fun hx => beq_trans x hx (hv.beq_symm v h)⟩

/-- Under equal keys the same is found. -/
theorem Distinct.lookup?_eq (hk : k.Distinct) (h : (k == x) = true) : lookup? ps k = lookup? ps x := by
  unfold lookup?
  simp only [hk.beq_congr h]

/-- Keys that meet the same key are equal. -/
theorem Distinct.beq_of_meets (hv : v.Distinct) (h : (v == k) = true) (hx : (v == x) = true) : (k == x) = true :=
  beq_trans k (hv.beq_symm v h) hx

/-! ## Maps and what is found in them -/

/-- The keys of a map differ, and so do those within. -/
theorem Distinct.parts (h : (Value.map ps).Distinct) : KeysDiffer ps ∧ ∀ p ∈ ps, p.1.Distinct ∧ p.2.Distinct := by
  cases h with
  | map hkeys hks hvs => exact ⟨hkeys, fun p hp => ⟨hks p hp, hvs p hp⟩⟩

/-- What is found under a key is the value of the one pair with an equal key. -/
theorem Distinct.lookup?_eq_some (h : (Value.map ps).Distinct) :
    lookup? ps k = some v ↔ ∃ p ∈ ps, (p.1 == k) = true ∧ p.2 = v := by
  obtain ⟨hkeys, hparts⟩ := h.parts
  unfold lookup?
  constructor
  · intro hv
    obtain ⟨p, hp, rfl⟩ := Option.map_eq_some_iff.1 hv
    have hpk := List.find?_some (p := fun q : Value × Value => q.1 == k) hp
    exact ⟨p, List.mem_of_find?_eq_some hp, hpk, rfl⟩
  · rintro ⟨p, hp, hpk, rfl⟩
    obtain ⟨front, back, rfl⟩ := List.append_of_mem hp
    have hfront : ∀ q ∈ front, ¬(q.1 == k) = true := by
      intro q hq hqk
      have hne := (List.pairwise_append.1 hkeys).2.2 q hq p List.mem_cons_self
      have hpq := beq_trans q.1 hqk ((hparts p hp).1.beq_symm p.1 hpk)
      exact Bool.false_ne_true (hne.symm.trans hpq)
    rw [List.find?_append, List.find?_eq_none.2 hfront, Option.none_or, List.find?_cons, hpk]
    rfl

/-- Nothing is found if no key is equal. -/
theorem lookup?_eq_none : lookup? ps k = none ↔ ∀ p ∈ ps, (p.1 == k) = false := by
  simp [lookup?]

/-- A map has what is found under the key. -/
theorem index_map : (map ps).index k = match lookup? ps k with
    | some v => .ok v
    | none => .error (.index s!"no such key: {k.repr}") := by
  unfold index
  rfl

/-- Under a key of a map its value is found. -/
theorem Distinct.lookup?_of_mem (h : (Value.map ps).Distinct) {p : Value × Value} (hp : p ∈ ps) :
    lookup? ps p.1 = some p.2 :=
  h.lookup?_eq_some.2 ⟨p, hp, beq_refl p.1, rfl⟩

/-- Equal maps have equal values under equal keys. -/
theorem Distinct.lookup?_congr (hps : (Value.map ps).Distinct) (hqs : (Value.map qs).Distinct)
    (h : (Value.map ps == Value.map qs) = true)
    (hkx : (k == x) = true) (hv : lookup? ps k = some v) : ∃ w, lookup? qs x = some w ∧ (v == w) = true := by
  obtain ⟨p, hp, hpk, rfl⟩ := hps.lookup?_eq_some.1 hv
  obtain ⟨q, hq, hkeys, hvalues⟩ := (beq_map.1 h).2 p hp
  have hqk : (q.1 == k) = true := (hps.parts.2 p hp).1.beq_of_meets hkeys hpk
  exact ⟨q.2, hqs.lookup?_eq_some.2 ⟨q, hq, beq_trans q.1 hqk hkx, rfl⟩, hvalues⟩

/-- Two maps as long as each other are equal if what one has under a key the other has too. -/
theorem beq_map_of_lookup (hps : (Value.map ps).Distinct) (hqs : (Value.map qs).Distinct) (hlen : ps.length = qs.length)
    (h : ∀ x v, lookup? ps x = some v → ∃ w, lookup? qs x = some w ∧ (v == w) = true) :
    (Value.map ps == Value.map qs) = true := by
  refine beq_map.2 ⟨hlen, fun p hp => ?_⟩
  obtain ⟨w, hw, hvw⟩ := h p.1 p.2 (hps.lookup?_of_mem hp)
  obtain ⟨q, hq, hqp, rfl⟩ := hqs.lookup?_eq_some.1 hw
  exact ⟨q, hq, (hqs.parts.2 q hq).1.beq_symm q.1 hqp, hvw⟩

/-! ## A key that is given a value -/

/-- The first pair with the key is found. -/
theorem lookup?_cons (p : Value × Value) : lookup? (p :: ps) k = if p.1 == k then some p.2 else lookup? ps k := by
  unfold lookup?
  rw [List.find?_cons]
  cases p.1 == k <;> rfl

/-- The new value is found under the key it was given. -/
theorem lookup?_insertPair_self : lookup? (insertPair ps k v) k = some v := by
  induction ps with
  | nil => simp [insertPair, lookup?_cons, beq_refl]
  | cons p rest ih =>
    rw [insertPair]
    cases hpk : p.1 == k with
    | true => simp [lookup?_cons, hpk]
    | false => simp [lookup?_cons, hpk, ih]

/-- The new value is found under every key equal to that it was given. -/
theorem lookup?_insertPair_same (hk : k.Distinct) (h : (k == x) = true) : lookup? (insertPair ps k v) x = some v := by
  rw [← hk.lookup?_eq h, lookup?_insertPair_self]

/-- Under other keys the same as before is found. -/
theorem lookup?_insertPair_other (hps : ∀ p ∈ ps, p.1.Distinct) (h : (k == x) = false) :
    lookup? (insertPair ps k v) x = lookup? ps x := by
  induction ps with
  | nil => simp [insertPair, h, lookup?]
  | cons p rest ih =>
    obtain ⟨hp, hrest⟩ := List.forall_mem_cons.1 hps
    rw [insertPair]
    cases hpk : p.1 == k with
    | true =>
      have hpx : (p.1 == x) = false := by
        refine Bool.eq_false_iff.2 fun hpx => ?_
        exact Bool.false_ne_true (h.symm.trans (hp.beq_of_meets hpk hpx))
      simp [lookup?_cons, hpx]
    | false => simp [lookup?_cons, ih hrest]

/-- A key that is there gives no pair more. -/
theorem length_insertPair : (insertPair ps k v).length = if lookup? ps k = none then ps.length + 1 else ps.length := by
  have hkeys := congrArg List.length (insertPair_keys ps k v)
  rw [List.length_map] at hkeys
  rw [hkeys]
  by_cases hnone : lookup? ps k = none
  · have hany : ps.any (·.1 == k) = false := by simpa using lookup?_eq_none.1 hnone
    rw [if_pos hnone, hany]
    simp
  · have hany : ps.any (·.1 == k) = true := by
      refine Bool.of_not_eq_false fun hall => hnone (lookup?_eq_none.2 ?_)
      simpa using hall
    rw [if_neg hnone, hany]
    simp

/-- A map stays one when a pair is inserted. -/
theorem Distinct.insertPair (h : (Value.map ps).Distinct) (hk : k.Distinct) (hv : v.Distinct) :
    (Value.map (insertPair ps k v)).Distinct :=
  Law.distinct.insert h hk hv

/-! ## A key that is removed -/

/-- Under other keys the same as before is found. -/
theorem lookup?_removed_other (hps : ∀ p ∈ ps, p.1.Distinct) (h : (k == x) = false) :
    lookup? (ps.filter fun p => !(p.1 == k)) x = lookup? ps x := by
  induction ps with
  | nil => rfl
  | cons p rest ih =>
    obtain ⟨hp, hrest⟩ := List.forall_mem_cons.1 hps
    rw [List.filter_cons]
    cases hpk : p.1 == k with
    | true =>
      have hpx : (p.1 == x) = false := by
        refine Bool.eq_false_iff.2 fun hpx => ?_
        exact Bool.false_ne_true (h.symm.trans (hp.beq_of_meets hpk hpx))
      simp [lookup?_cons, hpx, ih hrest]
    | false => simp [lookup?_cons, ih hrest]

/-- Under a key equal to the removed one nothing is found. -/
theorem lookup?_removed_same (hk : k.Distinct) (h : (k == x) = true) :
    lookup? (ps.filter fun p => !(p.1 == k)) x = none := by
  refine lookup?_eq_none.2 fun p hp => ?_
  have hpk : (p.1 == k) = false := by simpa using (List.mem_filter.1 hp).2
  exact (hk.beq_congr h p.1).symm.trans hpk

/-- A key that is not there is not removed. -/
theorem dissoc_map_absent (h : lookup? ps k = none) :
    (Value.map ps).dissoc k = .error (.index s!"no such key: {k.repr}") := by
  have hall : ps.filter (fun p => !(p.1 == k)) = ps := List.filter_eq_self.2 fun p hp => by
    simpa using lookup?_eq_none.1 h p hp
  unfold dissoc
  dsimp only
  rw [hall, if_pos (beq_self_eq_true _)]
  rfl

/-- A key that is there is removed, and one pair with it. -/
theorem Distinct.dissoc_map_present (h : (Value.map ps).Distinct) (hv : lookup? ps k = some v) :
    (Value.map ps).dissoc k = Except.ok (Value.map (ps.filter fun p => !(p.1 == k))) ∧
      (ps.filter fun p => !(p.1 == k)).length + 1 = ps.length := by
  obtain ⟨hkeys, hparts⟩ := h.parts
  obtain ⟨p, hp, hpk, rfl⟩ := h.lookup?_eq_some.1 hv
  obtain ⟨front, back, rfl⟩ := List.append_of_mem hp
  have hkept := hkeys.filter_ne (fun q hq => (hparts q hq).1) hpk
  rw [hkept]
  refine ⟨h.dissoc_map_iff.2 ⟨front, p, back, rfl, hpk, rfl⟩, ?_⟩
  simp
  omega

end Value

end DualShell
