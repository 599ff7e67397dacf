import DualShell.Proofs.Twin.Lawful
import DualShell.Proofs.Value.Keys

/-!
# Operations on values

Values are made of values that variables hold, and changed inside variables, in any order and with any success (`Operation`).
`mapsKeyed` gathers what maps are like after that, and in every run of programs.
-/

namespace DualShell

/-- How a value is made of those that variables hold. -/
inductive Building
  | string (s : String)
  | bool (b : Bool)
  | ok
  | closure (c : Closure)
  | ns (n : Namespace)
  | list (items : List CellId)
  | map (pairs : List (CellId × CellId))
  | document (j : Json)
  /-- A caught failure with a cause. -/
  | cause (identity : Nat) (c : Cause)
  /-- A caught failure with a reason. -/
  | reason (identity : Nat) (reason : CellId)
  /-- A caught failure of which others are the parts. -/
  | parts (identity : Nat) (parts : List CellId)
  | element (v key : CellId)

/-- The failure in a value that is a caught one. -/
def Value.failure? : Value → Option Exception
  | .exception _ e => some e
  | _ => none

/-- The value that is made. -/
def Building.value (s : Store) : Building → Except Cause Value
  | .string text => .ok (.string text)
  | .bool b => .ok (.bool b)
  | .ok => .ok .ok
  | .closure c => .ok (.closure c)
  | .ns n => .ok (.ns n)
  | .list items => .ok (.list (items.map s.get))
  | .map pairs => .ok (Value.mapOf (pairs.map fun p => (s.get p.1, s.get p.2)))
  | .document j => .ok (Value.ofJson j)
  | .cause i c => .ok (.exception i (.ofCause c))
  | .reason i c => .ok (.exception i (.ofReason (s.get c)))
  | .parts i cs => .ok (.exception i (.ofCauses (cs.filterMap fun c => (s.get c).failure?)))
  | .element v key => (s.get v).index (s.get key)

/-- Something that is done to values. -/
inductive Operation
  /-- A value is made and kept in a new variable. -/
  | build (b : Building)
  /-- The element of a variable at the end of a path of keys is replaced, or added to a map. -/
  | replace (c : CellId) (keys : List CellId) (value : CellId)
  /-- The element of a variable at the end of a path of keys is removed. -/
  | remove (c : CellId) (keys : List CellId)

namespace Operation

/-- Do something to values, if it succeeds. -/
def run (s : Store) : Operation → Except Cause Unit × Store
  | .build b =>
    match b.value s with
    | .ok v => (.ok (), (s.newCell v).2)
    | .error c => (.error c, s)
  | .replace c keys value => s.update c (Edit.replace (keys.map s.get) (s.get value)).apply
  | .remove c keys => s.update c (Edit.remove (keys.map s.get)).apply

/-- One thing after another is done, whether or not it succeeds. -/
def runAll (s : Store) (ops : List Operation) : Store := ops.foldl (fun s o => (o.run s).2) s

end Operation

/-! ## What operations keep -/

/-- No map in any variable has two equal keys. -/
def Store.Distinct (s : Store) : Prop := ∀ v ∈ s.cells, v.Distinct

namespace Store.Distinct

variable {s : Store}

/-- A cell holds maps without a key twice. -/
theorem get (h : s.Distinct) (c : CellId) : (s.get c).Distinct := by
  unfold Store.get
  rw [Array.getD_eq_getD_getElem?]
  cases hi : s.cells[c]? with
  | none => exact .string ""
  | some v => exact h v (Array.mem_of_getElem? hi)

/-- Cells hold maps without a key twice. -/
theorem getAll (h : s.Distinct) (cs : List CellId) : ∀ v ∈ cs.map s.get, v.Distinct := fun v hv => by
  obtain ⟨c, -, rfl⟩ := List.mem_map.1 hv
  exact h.get c

/-- A new cell may hold such a value. -/
theorem newCell (h : s.Distinct) {v : Value} (hv : v.Distinct) : (s.newCell v).2.Distinct := fun u hu => by
  rcases Array.mem_push.1 hu with hu | rfl
  · exact h u hu
  · exact hv

/-- A cell may be changed to such a value. -/
theorem update (h : s.Distinct) {change : Value → Except Cause Value}
    (hchange : ∀ v, v.Distinct → GivesOnly Value.Distinct (change v))
    (c : CellId) : (s.update c change).2.Distinct := by
  unfold Store.update
  split
  · rename_i v hv
    intro u hu
    rcases Array.mem_or_eq_of_mem_setIfInBounds hu with hu | rfl
    · exact h u hu
    · exact hchange _ (h.get c) _ hv
  · exact h

/-- What is built of such values is one. -/
theorem building (h : s.Distinct) (b : Building) : GivesOnly Value.Distinct (b.value s) := by
  cases b with
  | string text => exact .ok (.string text)
  | bool b => exact .ok (.bool b)
  | ok => exact .ok .ok
  | closure c => exact .ok (.closure c)
  | ns n => exact .ok (.ns n)
  | list items => exact .ok (.list (h.getAll items))
  | map pairs =>
    refine .ok (Law.distinct.mapOf fun p hp => ?_)
    obtain ⟨p, -, rfl⟩ := List.mem_map.1 hp
    exact ⟨h.get p.1, h.get p.2⟩
  | document j => exact .ok (Law.distinct.ofJson j)
  | cause i c => exact .ok (.exception i (.cause c []))
  | reason i reason => exact .ok (.exception i (.fail (h.get reason)))
  | parts i parts =>
    refine .ok (.exception i (.composite fun e he => ?_))
    obtain ⟨c, -, hc⟩ := List.mem_filterMap.1 he
    have hvalue := h.get c
    unfold Value.failure? at hc
    split at hc
    · rename_i heq
      cases hc
      rw [heq] at hvalue
      exact Law.distinct.exception.1 hvalue
    · nomatch hc
  | element v key => exact Law.distinct.index (h.get v) (s.get key)

/-- What is done once. -/
theorem run (h : s.Distinct) (o : Operation) : (o.run s).2.Distinct := by
  cases o with
  | build b =>
    have hb := h.building b
    unfold Operation.run
    dsimp only
    split
    · rename_i v hv
      exact h.newCell (hb v hv)
    · exact h
  | replace c keys value => exact h.update (fun v hv => Law.distinct.assocPath (h.get value) _ hv (h.getAll keys)) c
  | remove c keys => exact h.update (fun v hv => Law.distinct.dissocPath _ hv (h.getAll keys)) c

/-- Whatever is done. -/
theorem runAll (h : s.Distinct) (ops : List Operation) : (Operation.runAll s ops).Distinct :=
  List.foldlRecOn (motive := Store.Distinct) ops _ h fun _ hs o _ => hs.run o

end Store.Distinct

/-- A change that fails leaves the store. -/
theorem Store.update_error {s : Store} {c : CellId} {change : Value → Except Cause Value} {cause : Cause}
    (h : (s.update c change).1 = .error cause) : (s.update c change).2 = s := by
  unfold Store.update at h ⊢
  split at h
  · nomatch h
  · rfl

/-- What fails changes nothing. -/
theorem Operation.run_error {s : Store} {o : Operation} {cause : Cause} (h : (o.run s).1 = .error cause) :
    (o.run s).2 = s := by
  cases o with
  | build b =>
    unfold Operation.run at h ⊢
    dsimp only at h ⊢
    split at h
    · nomatch h
    · rfl
  | replace | remove => exact Store.update_error h

/-- Of answers nothing matters but that no map in them has two equal keys. -/
def Notes.distinct : Notes Law.distinct where
  noted _ _ := True
  composed _ _ _ h := .composite h
  reaped _ _ h := .composite h

/-- What maps are like, whatever is done to values. -/
structure MapsKeyed : Prop where
  /-- No map in any variable has two equal keys, after any sequence of operations, however deep one looks. -/
  distinct : ∀ (s : Store) (ops : List Operation), s.Distinct → (Operation.runAll s ops).Distinct
  /-- Nor is there one in anything that programs ask for, are told, hold or end with, in any run, if there is none in
  the values that come from outside. -/
  inRuns : ∀ ds p, History (fun _ v => v.Distinct) ds p → Lawful .distinct ds p.world
  /-- Nor in what the next program leaves. -/
  returned : ∀ ds w, History (fun _ v => v.Distinct) ds ⟨[], w⟩ → ∀ l k chunk src input values, (∀ v ∈ values, v.Distinct) →
    ∀ r, (w.executeWithin l k chunk src input values).1 = .ran r → Law.distinct.result r
  /-- What fails leaves all variables as they were. -/
  unchanged : ∀ (s : Store) (o : Operation) (cause : Cause), (o.run s).1 = .error cause → (o.run s).2 = s
  /-- A map of pairs has their keys, each at its first place and with its last value. -/
  ofPairs : ∀ ps : List (Value × Value), (∀ p ∈ ps, p.1.Distinct) →
    Value.mapOf ps = .map ((ps.map (·.1)).eraseDups.map fun k => (k, Value.latest ps k))
  /-- It is the map that comes about if the pairs are put into the empty map one after another. -/
  oneByOne : ∀ ps : List (Value × Value), ps.foldlM (fun m p => Value.assoc m p.1 p.2) (.map []) =
    (.ok (Value.mapOf ps) : Except Cause Value)
  /-- A key that is put into a map again keeps its place and takes the new value. -/
  repeated : ∀ (front back : List (Value × Value)) (p : Value × Value) (k v : Value), (∀ q ∈ front, (q.1 == k) = false) →
    (p.1 == k) = true → (Value.map (front ++ p :: back)).assoc k v = .ok (.map (front ++ (p.1, v) :: back))
  /-- A new key comes last. -/
  added : ∀ (pairs : List (Value × Value)) (k v : Value), (∀ q ∈ pairs, (q.1 == k) = false) →
    (Value.map pairs).assoc k v = .ok (.map (pairs ++ [(k, v)]))
  /-- Removing a key takes out the one pair that has it and keeps the others in order. -/
  removed : ∀ (pairs : List (Value × Value)) (k v : Value), (Value.map pairs).Distinct →
    ((Value.map pairs).dissoc k = .ok v ↔
    ∃ front p back, pairs = front ++ p :: back ∧ (p.1 == k) = true ∧ v = .map (front ++ back))

/-- In every history all values have maps without a key twice. -/
theorem History.keyed {ds : List Deed} {p : Pool} (h : History (fun _ v => v.Distinct) ds p) : Lawful .distinct ds p.world :=
  (h.lawful (fun _ => Notes.distinct) (fun _ _ _ hv => hv) fun _ _ _ _ _ _ => trivial).toLawful

theorem mapsKeyed : MapsKeyed where
  distinct _ ops h := h.runAll ops
  inRuns _ _ h := h.keyed
  returned _ _ h l k chunk src input _ hvalues r hr := by
    obtain ⟨_, _, hleft⟩ := h.execute_left l k chunk src input fun v hv _ => hvalues v hv
    obtain ⟨_, h', hr'⟩ := hleft r hr
    exact h'.keyed.held.result hr'
  unchanged _ _ _ h := Operation.run_error h
  ofPairs := Value.mapOf_eq
  oneByOne := Value.mapOf_foldlM
  repeated _ _ _ _ v hfront hk := congrArg (fun ps => Except.ok (Value.map ps)) (Value.insertPair_of_present hfront hk v)
  added _ _ v h := congrArg (fun ps => Except.ok (Value.map ps)) (Value.insertPair_of_absent h v)
  removed _ _ _ h := h.dissoc_map_iff

end DualShell
