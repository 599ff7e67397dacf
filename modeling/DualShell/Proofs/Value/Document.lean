import Mathlib.Data.String.Basic
import DualShell.Proofs.Value.Lookup
import DualShell.Value.Json

/-!
# Values and their documents

A value has a document if it is made of strings, booleans, lists and maps with string keys only (`Value.toJson_ok_iff`),
and the document means the value again, up to the order of keys (`Value.Distinct.ofJson_toJson`). What a document means
always has a document, which means the same (`Value.toJson_ofJson`).
-/

namespace DualShell

/-! ## Sorted tables -/

namespace Named

variable {α : Type} {table : List (String × α)} {name : String} {value : α}

/-- The names stand in order, each once. -/
def Sorted (table : List (String × α)) : Prop := table.Pairwise fun e e' => e.1 < e'.1

/-- A table stays sorted when an entry is inserted. -/
theorem Sorted.insert (h : Sorted table) (name : String) (value : α) : Sorted (Named.insert name value table) := by
  induction table with
  | nil => exact List.pairwise_singleton _ _
  | cons entry rest ih =>
    obtain ⟨hfirst, hrest⟩ := List.pairwise_cons.1 h
    unfold Named.insert
    split
    · rename_i heq
      obtain rfl : name = entry.1 := by simpa using heq
      exact List.pairwise_cons.2 ⟨hfirst, hrest⟩
    · rename_i hne
      have hne : name ≠ entry.1 := by simpa using hne
      split
      · rename_i hlt
        refine List.pairwise_cons.2 ⟨fun e he => ?_, h⟩
        rcases List.mem_cons.1 he with rfl | he
        · exact hlt
        · exact String.lt_trans hlt (hfirst e he)
      · rename_i hnot
        have hlt : entry.1 < name := lt_of_le_of_ne (not_lt.1 hnot) (Ne.symm hne)
        refine List.pairwise_cons.2 ⟨fun e he => ?_, ih hrest⟩
        rcases mem_insert he with rfl | he
        · exact hlt
        · exact hfirst e he

/-- A name after all others comes last. -/
theorem insert_last (h : ∀ e ∈ table, e.1 < name) : insert name value table = table ++ [(name, value)] := by
  induction table with
  | nil => rfl
  | cons entry rest ih =>
    obtain ⟨hfirst, hrest⟩ := List.forall_mem_cons.1 h
    have hne : ¬name = entry.1 := fun heq => String.lt_irrefl _ (heq ▸ hfirst)
    have hnot : ¬name < entry.1 := fun hlt => String.lt_irrefl _ (String.lt_trans hlt hfirst)
    unfold insert
    simp [hne, hnot, ih hrest]

/-- A sorted table is the table of its own entries. -/
theorem Sorted.ofList_eq (h : Sorted table) : ofList table = table := by
  induction table using List.reverseRecOn with
  | nil => rfl
  | append_singleton table e ih =>
    obtain ⟨hfront, -, hlast⟩ := List.pairwise_append.1 h
    have hstep : ofList (table ++ [e]) = Named.insert e.1 e.2 (ofList table) := by
      unfold ofList
      rw [List.foldl_append]
      rfl
    rw [hstep, ih hfront, insert_last fun e' he' => hlast e' he' e (List.mem_singleton_self e)]

/-- A table that is made of entries is sorted. -/
theorem sorted_ofList (entries : List (String × α)) : Sorted (ofList entries) := by
  refine List.foldlRecOn (motive := Sorted) entries _ .nil ?_
  intro table htable e _
  exact htable.insert e.1 e.2

/-- A new name makes the table longer by one. -/
theorem length_insert (h : ∀ e ∈ table, e.1 ≠ name) : (insert name value table).length = table.length + 1 := by
  induction table with
  | nil => rfl
  | cons entry rest ih =>
    obtain ⟨hfirst, hrest⟩ := List.forall_mem_cons.1 h
    have hne : ¬name = entry.1 := fun heq => hfirst heq.symm
    unfold insert
    by_cases hlt : name < entry.1
    · simp [hne, hlt]
    · simp [hne, hlt, ih hrest]

end Named

namespace Value

/-! ## What has a document -/

/-- A value of strings, booleans, lists and maps with string keys, at every depth. -/
inductive Data : Value → Prop
  | string (s : String) : Data (.string s)
  | bool (b : Bool) : Data (.bool b)
  | list {items : List Value} (h : ∀ v ∈ items, Data v) : Data (.list items)
  | map {pairs : List (Value × Value)} (hk : ∀ p ∈ pairs, ∃ s, p.1 = .string s) (hv : ∀ p ∈ pairs, Data p.2) :
      Data (.map pairs)

/-- Documents of items are those of the first and of the others. -/
theorem itemsToJson_cons {v : Value} {vs : List Value} {js : List Json} : itemsToJson (v :: vs) = .ok js ↔
    ∃ j rest, v.toJson = .ok j ∧ itemsToJson vs = .ok rest ∧ js = j :: rest := by
  rw [itemsToJson]
  cases v.toJson with
  | error c => simp [bind, Except.bind]
  | ok j => cases itemsToJson vs <;> simp [bind, Except.bind, pure, Except.pure, eq_comm]

/-- Members are added to an object one after another. -/
theorem membersInto_cons {p : Value × Value} {ps : List (Value × Value)} {sorted ms : List (String × Json)} :
    membersInto sorted (p :: ps) = .ok ms ↔
      ∃ name j, p.1 = .string name ∧ p.2.toJson = .ok j ∧ membersInto (Named.insert name j sorted) ps = .ok ms := by
  obtain ⟨k, v⟩ := p
  rw [membersInto]
  cases k with
  | string name => cases v.toJson <;> simp [expectString, bind, Except.bind]
  | _ => simp [expectString, bind, Except.bind]

/-- The document of a list is an array. -/
theorem toJson_list {items : List Value} {j : Json} :
    (Value.list items).toJson = .ok j ↔ ∃ js, itemsToJson items = .ok js ∧ j = .array js := by
  rw [toJson]
  cases itemsToJson items <;> simp [bind, Except.bind, pure, Except.pure, eq_comm]

/-- The document of a map is an object. -/
theorem toJson_map {pairs : List (Value × Value)} {j : Json} :
    (Value.map pairs).toJson = .ok j ↔ ∃ ms, membersInto [] pairs = .ok ms ∧ j = .object ms := by
  rw [toJson]
  cases membersInto [] pairs <;> simp [bind, Except.bind, pure, Except.pure, eq_comm]

mutual

/-- Values have a document if they are data. -/
theorem toJson_ok_iff : (v : Value) → ((∃ j, v.toJson = .ok j) ↔ v.Data)
  | .string s => iff_of_true ⟨_, rfl⟩ (.string s)
  | .bool b => iff_of_true ⟨_, rfl⟩ (.bool b)
  | .list items => by
    simp only [toJson_list]
    constructor
    · rintro ⟨-, js, hjs, -⟩
      exact .list ((itemsToJson_ok_iff items).1 ⟨js, hjs⟩)
    · intro h
      cases h with
      | list h =>
        obtain ⟨js, hjs⟩ := (itemsToJson_ok_iff items).2 h
        exact ⟨_, js, hjs, rfl⟩
  | .map pairs => by
    simp only [toJson_map]
    constructor
    · rintro ⟨-, ms, hms, -⟩
      obtain ⟨hk, hv⟩ := (membersInto_ok_iff [] pairs).1 ⟨ms, hms⟩
      exact .map hk hv
    · intro h
      cases h with
      | map hk hv =>
        obtain ⟨ms, hms⟩ := (membersInto_ok_iff [] pairs).2 ⟨hk, hv⟩
        exact ⟨_, ms, hms, rfl⟩
  | .closure _ => iff_of_false (fun ⟨_, h⟩ => nomatch h) (fun h => nomatch h)
  | .ok => iff_of_false (fun ⟨_, h⟩ => nomatch h) (fun h => nomatch h)
  | .exception _ _ => iff_of_false (fun ⟨_, h⟩ => nomatch h) (fun h => nomatch h)
  | .ns _ => iff_of_false (fun ⟨_, h⟩ => nomatch h) (fun h => nomatch h)

/-- Items have documents if each is data. -/
theorem itemsToJson_ok_iff : (vs : List Value) → ((∃ js, itemsToJson vs = .ok js) ↔ ∀ v ∈ vs, v.Data)
  | [] => iff_of_true ⟨_, rfl⟩ (List.forall_mem_nil _)
  | v :: vs => by
    rw [List.forall_mem_cons, ← toJson_ok_iff v, ← itemsToJson_ok_iff vs]
    simp only [itemsToJson_cons]
    constructor
    · rintro ⟨-, j, js, hj, hjs, -⟩
      exact ⟨⟨j, hj⟩, js, hjs⟩
    · rintro ⟨⟨j, hj⟩, js, hjs⟩
      exact ⟨_, j, js, hj, hjs, rfl⟩

/-- Pairs have members if their keys are strings and their values are data. -/
theorem membersInto_ok_iff (sorted : List (String × Json)) : (ps : List (Value × Value)) →
    ((∃ ms, membersInto sorted ps = .ok ms) ↔ (∀ p ∈ ps, ∃ s, p.1 = .string s) ∧ ∀ p ∈ ps, p.2.Data)
  | [] => iff_of_true ⟨_, rfl⟩ ⟨List.forall_mem_nil _, List.forall_mem_nil _⟩
  | (k, v) :: ps => by
    rw [List.forall_mem_cons, List.forall_mem_cons, ← toJson_ok_iff v]
    simp only [membersInto_cons]
    constructor
    · rintro ⟨ms, name, j, hk, hj, hms⟩
      obtain ⟨hks, hvs⟩ := (membersInto_ok_iff (Named.insert name j sorted) ps).1 ⟨ms, hms⟩
      exact ⟨⟨⟨name, hk⟩, hks⟩, ⟨j, hj⟩, hvs⟩
    · rintro ⟨⟨⟨name, hk⟩, hks⟩, ⟨j, hj⟩, hvs⟩
      obtain ⟨ms, hms⟩ := (membersInto_ok_iff (Named.insert name j sorted) ps).2 ⟨hks, hvs⟩
      exact ⟨ms, name, j, hk, hj, hms⟩

end

/-! ## The members of an object -/

/-- The members for some pairs are sorted, come from the pairs or were there before, and are as many as both if all
names differ. -/
structure MembersOf (table : List (String × Json)) (ps : List (Value × Value)) (ms : List (String × Json)) : Prop where
  sorted : Named.Sorted ms
  come : ∀ m ∈ ms, m ∈ table ∨ ∃ p ∈ ps, p.1 = .string m.1 ∧ p.2.toJson = .ok m.2
  count : KeysDiffer ps → (∀ p ∈ ps, ∀ e ∈ table, p.1 ≠ .string e.1) → ms.length = table.length + ps.length

/-- The members of an object are those of the table and those of the pairs. -/
theorem membersOf_membersInto {table ms : List (String × Json)} {ps : List (Value × Value)} (hsorted : Named.Sorted table)
    (h : membersInto table ps = .ok ms) : MembersOf table ps ms := by
  induction ps generalizing table with
  | nil =>
    cases h
    exact ⟨hsorted, fun m hm => .inl hm, fun _ _ => rfl⟩
  | cons p ps ih =>
    obtain ⟨name, j, hk, hj, hms⟩ := membersInto_cons.1 h
    have hrest := ih (hsorted.insert name j) hms
    refine ⟨hrest.sorted, fun m hm => ?_, fun hkeys hnew => ?_⟩
    · rcases hrest.come m hm with hm | ⟨q, hq, hqm⟩
      · rcases Named.mem_insert hm with rfl | hm
        · exact .inr ⟨p, List.mem_cons_self, hk, hj⟩
        · exact .inl hm
      · exact .inr ⟨q, List.mem_cons_of_mem _ hq, hqm⟩
    · obtain ⟨hfirst, hkeys⟩ := List.pairwise_cons.1 hkeys
      obtain ⟨hnewFirst, hnew⟩ := List.forall_mem_cons.1 hnew
      have hlength : (Named.insert name j table).length = table.length + 1 :=
        Named.length_insert fun e he heq => hnewFirst e he (heq ▸ hk)
      have hcount := hrest.count hkeys fun q hq e he heq => by
        rcases Named.mem_insert he with rfl | he
        · have hdiffer := hfirst q hq
          rw [hk, heq, beq_refl] at hdiffer
          cases hdiffer
        · exact hnew q hq e he heq
      rw [hcount, hlength, List.length_cons]
      omega

/-- Members are read one after another. -/
theorem ofMembers_eq (ms : List (String × Json)) : ofMembers ms = ms.map fun m => (m.1, ofJson m.2) := by
  induction ms with
  | nil => rfl
  | cons m ms ih =>
    rw [ofMembers, ih]
    rfl

/-- Pairs whose keys differ make up a map as they stand. -/
theorem mapOf_of_differ {ps : List (Value × Value)} (h : KeysDiffer ps) : mapOf ps = .map ps := by
  suffices hfold : ∀ out : List (Value × Value), KeysDiffer (out ++ ps) →
      ps.foldl (fun out p => insertPair out p.1 p.2) out = out ++ ps from congrArg Value.map (hfold [] h)
  clear h
  induction ps with
  | nil => exact fun out _ => (List.append_nil out).symm
  | cons p ps ih =>
    intro out h
    have hnew : ∀ q ∈ out, (q.1 == p.1) = false := fun q hq => (List.pairwise_append.1 h).2.2 q hq p List.mem_cons_self
    rw [List.foldl_cons, insertPair_of_absent hnew, ih _ (by simpa using h)]
    simp

/-- Names in order make keys that differ. -/
theorem keysDiffer_of_sorted {α : Type} {ms : List (String × α)} (h : Named.Sorted ms) (f : String × α → Value) :
    KeysDiffer (ms.map fun m => (.string m.1, f m)) := by
  refine List.pairwise_map.2 (h.imp fun {m m'} hlt => ?_)
  refine Bool.eq_false_iff.2 fun heq => String.lt_irrefl m.1 ?_
  rw [beq_string] at heq
  rwa [← heq] at hlt

/-- An object whose names are in order means the map of its members. -/
theorem ofJson_object {ms : List (String × Json)} (h : Named.Sorted ms) :
    ofJson (.object ms) = .map (ms.map fun m => (.string m.1, ofJson m.2)) := by
  have hvalues : Named.Sorted (ms.map fun m => (m.1, ofJson m.2)) := List.pairwise_map.2 h
  have hdiffer := keysDiffer_of_sorted h fun m => ofJson m.2
  rw [ofJson, ofMembers_eq, hvalues.ofList_eq, List.map_map]
  exact mapOf_of_differ hdiffer

/-- Items are read one after another. -/
theorem ofItems_eq (js : List Json) : ofItems js = js.map ofJson := by
  induction js with
  | nil => rfl
  | cons j js ih => rw [ofItems, ih, List.map_cons]

/-! ## There and back -/

mutual

/-- A value is read back up to the order of keys. -/
theorem Distinct.ofJson_toJson : (v : Value) → v.Distinct → ∀ {j : Json}, v.toJson = .ok j → (Value.ofJson j == v) = true
  | .string s, _, _, h => by
    cases h
    exact beq_string.2 rfl
  | .bool b, _, _, h => by
    cases h
    exact beq_bool.2 rfl
  | .list items, .list hitems, _, h => by
    obtain ⟨js, hjs, rfl⟩ := toJson_list.1 h
    rw [Value.ofJson]
    exact beq_list.2 (items_back items hitems hjs)
  | .map pairs, .map hkeys _ hvs, _, h => by
    obtain ⟨ms, hms, rfl⟩ := toJson_map.1 h
    have hmembers := membersOf_membersInto .nil hms
    rw [ofJson_object hmembers.sorted]
    have hlength := hmembers.count hkeys fun _ _ => List.forall_mem_nil _
    refine beq_map.2 ⟨by simpa using hlength, fun p hp => ?_⟩
    obtain ⟨m, hm, rfl⟩ := List.mem_map.1 hp
    obtain ⟨q, hq, hname, hdocument⟩ := (hmembers.come m hm).resolve_left List.not_mem_nil
    refine ⟨q, hq, ?_, values_back pairs hvs q hq hdocument⟩
    rw [hname]
    exact beq_string.2 rfl
  | .closure _, _, _, h => nomatch h
  | .ok, _, _, h => nomatch h
  | .exception _ _, _, _, h => nomatch h
  | .ns _, _, _, h => nomatch h

/-- Items are read back one after another. -/
theorem Distinct.items_back : (vs : List Value) → (∀ v ∈ vs, v.Distinct) → ∀ {js : List Json}, itemsToJson vs = .ok js →
    List.Forall₂ (fun v w => v == w) (ofItems js) vs
  | [], _, _, h => by
    cases h
    exact .nil
  | v :: vs, hvs, _, h => by
    obtain ⟨j, js, hj, hjs, rfl⟩ := itemsToJson_cons.1 h
    obtain ⟨hv, hvs⟩ := List.forall_mem_cons.1 hvs
    exact .cons (ofJson_toJson v hv hj) (items_back vs hvs hjs)

/-- Values of pairs are read back. -/
theorem Distinct.values_back : (ps : List (Value × Value)) → (∀ p ∈ ps, p.2.Distinct) → ∀ p ∈ ps, ∀ {j : Json},
    p.2.toJson = .ok j → (Value.ofJson j == p.2) = true
  | [], _ => fun _ hp => absurd hp List.not_mem_nil
  | (k, v) :: ps, hps => fun p hp {_} h => by
    obtain ⟨hv, hps⟩ := List.forall_mem_cons.1 hps
    rcases List.mem_cons.1 hp with rfl | hp
    · exact ofJson_toJson v hv h
    · exact values_back ps hps p hp h

end

mutual

/-- What a document means is data. -/
theorem data_ofJson : (j : Json) → (ofJson j).Data
  | .null => .string ""
  | .bool b => .bool b
  | .number n => .string n.render
  | .string s => .string s
  | .array items => by
    rw [ofJson]
    exact .list (data_ofItems items)
  | .object members => by
    have hsorted := Named.sorted_ofList (ofMembers members)
    rw [ofJson, mapOf_of_differ (keysDiffer_of_sorted hsorted fun m => m.2)]
    refine .map (fun p hp => ?_) fun p hp => ?_
    · obtain ⟨m, -, rfl⟩ := List.mem_map.1 hp
      exact ⟨m.1, rfl⟩
    · obtain ⟨m, hm, rfl⟩ := List.mem_map.1 hp
      exact data_ofMembers members m (Named.mem_of_mem_ofList hm)

/-- Items that are read are data. -/
theorem data_ofItems : (js : List Json) → ∀ v ∈ ofItems js, v.Data
  | [] => List.forall_mem_nil _
  | j :: js => List.forall_mem_cons.2 ⟨data_ofJson j, data_ofItems js⟩

/-- Members that are read are data. -/
theorem data_ofMembers : (ms : List (String × Json)) → ∀ m ∈ ofMembers ms, m.2.Data
  | [] => List.forall_mem_nil _
  | (_, j) :: ms => List.forall_mem_cons.2 ⟨data_ofJson j, data_ofMembers ms⟩

end

/-- What a document means has a document, and that means the same. -/
theorem toJson_ofJson (j : Json) : ∃ j', (ofJson j).toJson = .ok j' ∧ (ofJson j' == ofJson j) = true := by
  obtain ⟨j', hj'⟩ := (toJson_ok_iff (ofJson j)).2 (data_ofJson j)
  exact ⟨j', hj', (Law.distinct.ofJson j).ofJson_toJson _ hj'⟩

end Value

end DualShell
