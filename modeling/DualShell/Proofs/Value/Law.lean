import DualShell.Job.RunResult
import DualShell.Value.Index

/-!
# Laws of values

A `Law` is a property of values and of the failures in them that the basic ways to make and to take apart values keep.
Then so do all computations with values: indexing (`Law.index`), updates along a path (`Law.assocPath`,
`Law.dissocPath`), the reading of documents (`Law.ofJson`), and what programs read off a failure (`Law.field?`).
-/

namespace DualShell

/-- A property of values and failures that making and taking apart keeps. -/
structure Law where
  value : Value → Prop
  failure : Exception → Prop
  string : ∀ s, value (.string s)
  bool : ∀ b, value (.bool b)
  ok : value .ok
  closure : ∀ c, value (.closure c)
  ns : ∀ n, value (.ns n)
  list : ∀ {items}, value (.list items) ↔ ∀ v ∈ items, value v
  emptyMap : value (.map [])
  insert : ∀ {pairs k v}, value (.map pairs) → value k → value v → value (.map (Value.insertPair pairs k v))
  remove : ∀ {pairs} k, value (.map pairs) → value (.map (pairs.filter fun p => !(p.1 == k)))
  parts : ∀ {pairs}, value (.map pairs) → ∀ p ∈ pairs, value p.1 ∧ value p.2
  exception : ∀ {i e}, value (.exception i e) ↔ failure e
  ofCause : ∀ c, failure (.ofCause c)
  ofFlow : ∀ f, failure (.ofFlow f)
  ofReason : ∀ {v}, value v → failure (.ofReason v)
  passing : ∀ {e} place, failure e → failure (e.passing place)
  reason : ∀ {v trace}, failure ⟨.fail v, trace⟩ → value v
  causes : ∀ {es trace}, failure ⟨.composite es, trace⟩ → ∀ e ∈ es, failure e

/-- Whatever a computation yields satisfies `P`; it may fail. -/
def GivesOnly {α : Type} (P : α → Prop) (x : Except Cause α) : Prop := ∀ a, x = .ok a → P a

namespace GivesOnly

variable {α β : Type} {P : α → Prop} {R : β → Prop}

theorem ok {a : α} (h : P a) : GivesOnly P (.ok a) := fun _ ha => by cases ha; exact h

theorem error {c : Cause} : GivesOnly P (.error c) := fun _ ha => nomatch ha

/-- Of a step nothing is known but what it yields. -/
theorem andThen {x : Except Cause α} {f : α → Except Cause β} (hf : ∀ a, x = .ok a → GivesOnly R (f a)) :
    GivesOnly R (x >>= f) := by
  cases x with
  | ok a => exact hf a rfl
  | error c => exact error

/-- Results allow what they give, one after another. -/
theorem bind {x : Except Cause α} {f : α → Except Cause β} (hx : GivesOnly P x) (hf : ∀ a, P a → GivesOnly R (f a)) :
    GivesOnly R (x >>= f) :=
  andThen fun a ha => hf a (hx a ha)

end GivesOnly

namespace Law

variable (L : Law)

/-- All of some values obey the law. -/
abbrev values (vs : List Value) : Prop := ∀ v ∈ vs, L.value v

/-- The failure of an outcome, if it is one, obeys the law. -/
def outcome (o : Outcome) : Prop := ∀ e, o = .error e → L.failure e

/-- What a run left obeys the law. -/
structure result (r : RunResult) : Prop where
  values : L.values r.values
  exception : ∀ e, r.exception = some e → L.failure e

variable {L}

theorem outcome_ok : L.outcome (.ok ()) := fun _ h => nomatch h

/-- A failure is an outcome that the law allows if it allows the failure. -/
theorem outcome_error {e : Exception} : L.outcome (.error e) ↔ L.failure e :=
  ⟨fun h => h e rfl, fun h _ he => by cases he; exact h⟩

/-- What a program came to is lawful if its values and its outcome are. -/
theorem result_ofOutput {out err : Bytes} {vs : List Value} {o : Outcome} (hvs : L.values vs) (ho : L.outcome o) :
    L.result (.ofOutput out err vs o) := by
  refine ⟨hvs, fun e he => ?_⟩
  cases o with
  | ok => nomatch he
  | error e' => cases he; exact ho _ rfl

/-! ## Parts and wholes -/

theorem empty : L.value .empty := L.string ""

/-- The value at a position is lawful, and so is what stands in for it. -/
theorem getD {vs : List Value} (h : L.values vs) {d : Value} (hd : L.value d) (i : Nat) : L.value (vs.getD i d) := by
  rw [List.getD_eq_getElem?_getD]
  cases hi : vs[i]? with
  | none => exact hd
  | some v => exact h v (List.mem_of_getElem? hi)

theorem head?_getD {vs : List Value} (h : L.values vs) : L.value (vs.head?.getD .empty) := by
  cases hv : vs.head? with
  | none => exact empty
  | some v => exact h v (List.mem_of_head? hv)

/-- What is gone through is lawful. -/
theorem iterate {v : Value} (h : L.value v) : GivesOnly L.values v.iterate := by
  cases v with
  | list items => exact .ok (L.list.1 h)
  | map pairs => exact .ok fun k hk => by obtain ⟨p, hp, rfl⟩ := List.mem_map.1 hk; exact (L.parts h p hp).1
  | string s => exact .ok fun c hc => by obtain ⟨c, -, rfl⟩ := List.mem_map.1 hc; exact L.string _
  | _ => exact .error

/-- The value under a key is lawful. -/
theorem lookup? {pairs : List (Value × Value)} (h : L.value (.map pairs)) {key v : Value}
    (hv : Value.lookup? pairs key = some v) : L.value v := by
  obtain ⟨p, hp, rfl⟩ := Option.map_eq_some_iff.1 hv
  exact (L.parts h p (List.mem_of_find?_eq_some hp)).2

/-- A map of lawful pairs is lawful. -/
theorem mapOf {pairs : List (Value × Value)} (h : ∀ p ∈ pairs, L.value p.1 ∧ L.value p.2) : L.value (Value.mapOf pairs) :=
  List.foldlRecOn (motive := fun out => L.value (.map out)) pairs _ L.emptyMap
    fun _ hout p hp => L.insert hout (h p hp).1 (h p hp).2

/-- A value that gets an identity is lawful. -/
theorem adopt {v : Value} (h : L.value v) (fresh : Nat) : L.value (v.adopt fresh).1 := by
  unfold Value.adopt
  split
  · exact L.exception.2 (L.exception.1 h)
  · rename_i items
    have hitems := L.list.1 h
    refine L.list.2 fun v hv => ?_
    rw [List.mem_reverse] at hv
    revert v
    refine List.foldlRecOn (motive := fun acc : List Value × Nat => L.values acc.1) items _ (List.forall_mem_nil _) ?_
    intro acc hacc v hv
    split
    · exact List.forall_mem_cons.2 ⟨L.exception.2 (L.exception.1 (hitems _ hv)), hacc⟩
    · exact List.forall_mem_cons.2 ⟨hitems _ hv, hacc⟩
  · exact h

/-- Fixed variables are lawful. -/
theorem fixedValue? {name : String} {v : Value} (h : DualShell.fixedValue? name = some v) : L.value v := by
  unfold DualShell.fixedValue? at h
  split at h
  · cases h; exact L.bool true
  · split at h
    · cases h; exact L.bool false
    · split at h
      · cases h; exact L.ok
      · split at h
        · cases h; exact L.string "0"
        · nomatch h

/-- What a program reads off a failure. -/
theorem field? {e : Exception} (h : L.failure e) {key : String} {v : Value} (hv : e.field? key = some v) : L.value v := by
  have hreason : L.value e.reason := by
    obtain ⟨kind, trace⟩ := e
    cases kind with
    | fail v => exact L.reason h
    | _ => exact L.string _
  have hcauses : ∀ part ∈ e.causes, L.failure part := by
    obtain ⟨kind, trace⟩ := e
    cases kind with
    | composite es => exact L.causes h
    | _ => exact List.forall_mem_nil _
  unfold Exception.field? at hv
  split at hv
  · cases hv; exact hreason
  · split at hv
    · cases hv; exact L.string _
    · split at hv
      · cases hv
        refine L.list.2 fun v hv => ?_
        obtain ⟨part, hpart, rfl⟩ := List.mem_map.1 hv
        exact L.exception.2 (hcauses part hpart)
      · split at hv
        · obtain ⟨n, -, rfl⟩ := Option.map_eq_some_iff.1 hv
          exact L.string _
        · split at hv
          · cases hv
            refine L.list.2 fun v hv => ?_
            obtain ⟨p, -, rfl⟩ := List.mem_map.1 hv
            exact L.string _
          · nomatch hv

/-! ## Indexing -/

/-- What is had from a list is lawful. -/
theorem indexList {items : List Value} (h : L.values items) (key : String) :
    GivesOnly L.value (Value.indexList items key) := by
  unfold Value.indexList
  refine .andThen fun range _ => ?_
  split
  · exact .ok (L.list.2 fun v hv => h v (List.mem_of_mem_drop (List.mem_of_mem_take hv)))
  · exact .andThen fun i _ => .ok (getD h empty i)

/-- What is had from a string is a string. -/
theorem indexString (s key : String) : GivesOnly L.value (Value.indexString s key) := by
  unfold Value.indexString
  refine .andThen fun range _ => ?_
  extract_lets slice
  have hslice : ∀ range, GivesOnly L.value (slice range) := by
    intro range
    dsimp only [slice]
    split
    · exact .ok (L.string _)
    · exact .error
  split
  · exact hslice _
  · exact .andThen fun i _ => hslice (i, ByteText.after s i)

/-- What is had from a value is lawful. -/
theorem index {v : Value} (h : L.value v) (key : Value) : GivesOnly L.value (v.index key) := by
  unfold Value.index
  split
  · exact .andThen fun key _ => indexList (L.list.1 h) key
  · split
    · rename_i hv
      exact .ok (lookup? h hv)
    · exact .error
  · exact .andThen fun key _ => indexString _ key
  · refine .andThen fun key _ => ?_
    split
    · rename_i hv
      exact .ok (field? (L.exception.1 h) hv)
    · exact .error
  · exact .error

/-- A value that is given another one under a key is lawful. -/
theorem assoc {v key value : Value} (h : L.value v) (hk : L.value key) (hv : L.value value) :
    GivesOnly L.value (v.assoc key value) := by
  unfold Value.assoc
  split
  · refine .andThen fun key _ => .andThen fun i _ => .ok (L.list.2 fun v hv' => ?_)
    rcases List.mem_or_eq_of_mem_set hv' with hv' | rfl
    · exact L.list.1 h v hv'
    · exact hv
  · exact .ok (L.insert h hk hv)
  · exact .error

/-- A value that is rid of a key is lawful. -/
theorem dissoc {v : Value} (h : L.value v) (key : Value) : GivesOnly L.value (v.dissoc key) := by
  unfold Value.dissoc
  split
  · refine .andThen fun key _ => .andThen fun i _ => .ok (L.list.2 fun v hv => ?_)
    exact L.list.1 h v (List.mem_of_mem_eraseIdx hv)
  · dsimp only
    split
    · exact .error
    · exact .ok (L.remove key h)
  · exact .error

/-- A value that is given another one along a path is lawful. -/
theorem assocPath {value : Value} (hv : L.value value) (keys : List Value) {v : Value} (h : L.value v)
    (hks : L.values keys) : GivesOnly L.value (v.assocPath keys value) := by
  induction keys generalizing v with
  | nil => exact .ok hv
  | cons key rest ih =>
    obtain ⟨hkey, hrest⟩ := List.forall_mem_cons.1 hks
    cases rest with
    | nil => exact assoc h hkey hv
    | cons next rest => exact .bind (index h key) fun _ hchild => .bind (ih hchild hrest) fun _ hchild => assoc h hkey hchild

/-- A value that is rid of a path is lawful. -/
theorem dissocPath (keys : List Value) {v : Value} (h : L.value v) (hks : L.values keys) :
    GivesOnly L.value (v.dissocPath keys) := by
  induction keys generalizing v with
  | nil => exact .ok h
  | cons key rest ih =>
    obtain ⟨hkey, hrest⟩ := List.forall_mem_cons.1 hks
    cases rest with
    | nil => exact dissoc h key
    | cons next rest => exact .bind (index h key) fun _ hchild => .bind (ih hchild hrest) fun _ hchild => assoc h hkey hchild

/-! ## Documents -/

mutual

/-- What is read from a document is lawful. -/
theorem ofJson : (j : Json) → L.value (Value.ofJson j)
  | .null => empty
  | .bool b => L.bool b
  | .number _ => L.string _
  | .string s => L.string s
  | .array items => L.list.2 (ofItems items)
  | .object members => by
    refine mapOf fun p hp => ?_
    obtain ⟨m, hm, rfl⟩ := List.mem_map.1 hp
    exact ⟨L.string _, ofMembers members m (Named.mem_of_mem_ofList hm)⟩

theorem ofItems : (js : List Json) → L.values (Value.ofItems js)
  | [] => List.forall_mem_nil _
  | j :: js => List.forall_mem_cons.2 ⟨ofJson j, ofItems js⟩

theorem ofMembers : (ms : List (String × Json)) → ∀ m ∈ Value.ofMembers ms, L.value m.2
  | [] => List.forall_mem_nil _
  | (_, j) :: ms => List.forall_mem_cons.2 ⟨ofJson j, ofMembers ms⟩

end

end Law

end DualShell
