import DualShell.Builtin.Schema
import DualShell.Job.RunResult
import DualShell.Value.Index

/-!
# Values that hold nothing bad

A closure can be buried anywhere in a value: in a list, under a key of a map, in the reason of a failure that some other
value carries. `Quality` says which closures may be there and which names a failed lookup may report, `Value.Sound` that
a value holds nothing else however deep one looks. The functions on values neither make closures nor look names up, so
what they make of sound values is sound (`Value.Sound.index`, `Value.Sound.assocPath`, `Exception.Sound.field?`), and
they fail only in ways of their own.
-/

namespace DualShell

/-- What may be found inside a value: which closures, and which names as those a lookup did not find. -/
structure Quality where
  closure : Closure → Prop
  missing : String → Prop

namespace Quality

/-- A cause that may be found: any cause, except that a lookup has failed for a name that may not be missing. -/
def cause (q : Quality) : Cause → Prop
  | .noSuchVariable name => q.missing name
  | _ => True

/-- Whatever may be found under the first quality may be found under the second. -/
structure Le (q q' : Quality) : Prop where
  closure : ∀ c, q.closure c → q'.closure c
  missing : ∀ n, q.missing n → q'.missing n

theorem Le.refl (q : Quality) : q.Le q := ⟨fun _ => id, fun _ => id⟩

theorem Le.cause {q q' : Quality} (h : q.Le q') {c : Cause} (hc : q.cause c) : q'.cause c := by
  cases c with
  | noSuchVariable n => exact h.missing n hc
  | _ => trivial

/-- A result that satisfies `P`, or a cause that may be found. -/
def Yields {α : Type} (q : Quality) (P : α → Prop) : Except Cause α → Prop
  | .ok a => P a
  | .error c => q.cause c

end Quality

mutual

/-- Everything in a value is of the quality. -/
inductive Value.Sound (q : Quality) : Value → Prop
  | string (s : String) : Value.Sound q (.string s)
  | bool (b : Bool) : Value.Sound q (.bool b)
  | list {items : List Value} (h : ∀ v ∈ items, Value.Sound q v) : Value.Sound q (.list items)
  | map {pairs : List (Value × Value)} (hk : ∀ p ∈ pairs, Value.Sound q p.1) (hv : ∀ p ∈ pairs, Value.Sound q p.2) :
      Value.Sound q (.map pairs)
  | closure {c : Closure} (h : q.closure c) : Value.Sound q (.closure c)
  | ok : Value.Sound q .ok
  | exception {identity : Nat} {e : Exception} (h : Exception.Sound q e) : Value.Sound q (.exception identity e)
  | ns (n : Namespace) : Value.Sound q (.ns n)

/-- Everything in a failure is of the quality. -/
inductive Exception.Sound (q : Quality) : Exception → Prop
  | fail {reason : Value} {trace : List Place} (h : Value.Sound q reason) : Exception.Sound q ⟨.fail reason, trace⟩
  | cause {c : Cause} {trace : List Place} (h : q.cause c) : Exception.Sound q ⟨.cause c, trace⟩
  | composite {es : List Exception} {trace : List Place} (h : ∀ e ∈ es, Exception.Sound q e) :
      Exception.Sound q ⟨.composite es, trace⟩
  | flow (f : Flow) (trace : List Place) : Exception.Sound q ⟨.flow f, trace⟩

end

/-- A list of values that are sound. -/
abbrev Value.AllSound (q : Quality) (vs : List Value) : Prop := ∀ v ∈ vs, v.Sound q

/-- The failure of an outcome, if it is one, is sound. -/
def Outcome.Sound (q : Quality) : Outcome → Prop
  | .ok () => True
  | .error e => e.Sound q

/-- The values and the failure of a result are sound. -/
structure RunResult.Sound (q : Quality) (r : RunResult) : Prop where
  values : Value.AllSound q r.values
  exception : ∀ e, r.exception = some e → e.Sound q

section Monotone

mutual

/-- A value that is sound for one quality is sound for every one that admits more. -/
theorem Value.Sound.mono {q q' : Quality} (hq : q.Le q') {v : Value} : v.Sound q → v.Sound q'
  | .string s => .string s
  | .bool b => .bool b
  | .list h => .list fun v hv => (h v hv).mono hq
  | .map hk hv => .map (fun p hp => (hk p hp).mono hq) fun p hp => (hv p hp).mono hq
  | .closure h => .closure (hq.closure _ h)
  | .ok => .ok
  | .exception h => .exception (h.mono hq)
  | .ns n => .ns n

theorem Exception.Sound.mono {q q' : Quality} (hq : q.Le q') {e : Exception} : e.Sound q → e.Sound q'
  | .fail h => .fail (h.mono hq)
  | .cause h => .cause (hq.cause h)
  | .composite h => .composite fun e he => (h e he).mono hq
  | .flow f t => .flow f t

end

/-- An outcome that is sound for a quality is sound for a weaker one. -/
theorem Outcome.Sound.mono {q q' : Quality} (hq : q.Le q') {o : Outcome} (h : Outcome.Sound q o) : Outcome.Sound q' o :=
  match o, h with
  | .ok (), _ => trivial
  | .error _, h => Exception.Sound.mono hq h

/-- A result that is sound for a quality is sound for a weaker one. -/
theorem RunResult.Sound.mono {q q' : Quality} (hq : q.Le q') {r : RunResult} (h : r.Sound q) : r.Sound q' :=
  ⟨fun v hv => (h.values v hv).mono hq, fun e he => (h.exception e he).mono hq⟩

end Monotone

/-- Everything may be found in values. -/
def Quality.IsOpen (q : Quality) : Prop := (∀ c, q.closure c) ∧ ∀ n, q.missing n

mutual

/-- Where everything may be found in values, every value is sound. -/
theorem Value.sound_of_isOpen {q : Quality} (hq : q.IsOpen) : (v : Value) → v.Sound q
  | .string s => .string s
  | .bool b => .bool b
  | .list items => .list (Value.allSound_of_isOpen hq items)
  | .map pairs =>
    .map (fun p hp => (Value.pairs_of_isOpen hq pairs p hp).1) fun p hp => (Value.pairs_of_isOpen hq pairs p hp).2
  | .closure c => .closure (hq.1 c)
  | .ok => .ok
  | .exception _ e => .exception (Exception.sound_of_isOpen hq e)
  | .ns n => .ns n

/-- All values are sound for a quality that allows everything. -/
theorem Value.allSound_of_isOpen {q : Quality} (hq : q.IsOpen) : (vs : List Value) → Value.AllSound q vs
  | [] => fun _ hv => nomatch hv
  | v :: vs => List.forall_mem_cons.2 ⟨Value.sound_of_isOpen hq v, Value.allSound_of_isOpen hq vs⟩

theorem Value.pairs_of_isOpen {q : Quality} (hq : q.IsOpen) :
    (ps : List (Value × Value)) → ∀ p ∈ ps, p.1.Sound q ∧ p.2.Sound q
  | [] => fun _ hp => nomatch hp
  | (k, v) :: ps =>
    List.forall_mem_cons.2 ⟨⟨Value.sound_of_isOpen hq k, Value.sound_of_isOpen hq v⟩, Value.pairs_of_isOpen hq ps⟩

theorem Exception.sound_of_isOpen {q : Quality} (hq : q.IsOpen) : (e : Exception) → e.Sound q
  | ⟨.fail reason, _⟩ => .fail (Value.sound_of_isOpen hq reason)
  | ⟨.cause c, _⟩ => .cause (by cases c <;> first | trivial | exact hq.2 _)
  | ⟨.composite es, _⟩ => .composite (Exception.allSound_of_isOpen hq es)
  | ⟨.flow f, trace⟩ => .flow f trace

theorem Exception.allSound_of_isOpen {q : Quality} (hq : q.IsOpen) : (es : List Exception) → ∀ e ∈ es, e.Sound q
  | [] => fun _ he => nomatch he
  | e :: es => List.forall_mem_cons.2 ⟨Exception.sound_of_isOpen hq e, Exception.allSound_of_isOpen hq es⟩

end

variable {q : Quality} {α β : Type}

namespace Quality.Yields

theorem ok {P : α → Prop} {a : α} (h : P a) : q.Yields P (.ok a) := h

/-- Results one after another yield what they say. -/
theorem bind {P : α → Prop} {R : β → Prop} {x : Except Cause α} {f : α → Except Cause β} (hx : q.Yields P x)
    (hf : ∀ a, P a → q.Yields R (f a)) : q.Yields R (x >>= f) := by
  cases x with
  | ok a => exact hf a hx
  | error c => exact hx

/-- Less may be concluded of a result. -/
theorem mono {P R : α → Prop} {x : Except Cause α} (hx : q.Yields P x) (h : ∀ a, P a → R a) : q.Yields R x := by
  cases x with
  | ok a => exact h a hx
  | error c => exact hx

/-- What each step of a list yields, all steps together yield. -/
theorem mapM {P : β → Prop} {f : α → Except Cause β} : (xs : List α) → (∀ a ∈ xs, q.Yields P (f a)) →
    q.Yields (fun bs => ∀ b ∈ bs, P b) (xs.mapM f)
  | [], _ => by
    intro b hb
    cases hb
  | a :: as, h => by
    rw [List.mapM_cons]
    refine bind (h a List.mem_cons_self) fun b hb => ?_
    refine bind (mapM as fun a' ha' => h a' (List.mem_cons_of_mem _ ha')) fun bs hbs => ?_
    intro b' hb'
    rcases List.mem_cons.1 hb' with rfl | hb'
    · exact hb
    · exact hbs b' hb'

end Quality.Yields

/-! ## Values -/

namespace Value.Sound

theorem empty : Value.empty.Sound q := .string ""

/-- The items of a sound list are sound. -/
theorem of_list {items : List Value} (h : (Value.list items).Sound q) : Value.AllSound q items := by
  cases h with
  | list h => exact h

theorem of_exception {i : Nat} {e : Exception} (h : (Value.exception i e).Sound q) : e.Sound q := by
  cases h with
  | exception h => exact h

theorem of_closure {c : Closure} (h : (Value.closure c).Sound q) : q.closure c := by
  cases h with
  | closure h => exact h

theorem of_map {pairs : List (Value × Value)} (h : (Value.map pairs).Sound q) :
    ∀ p ∈ pairs, p.1.Sound q ∧ p.2.Sound q := by
  cases h with
  | map hk hv => exact fun p hp => ⟨hk p hp, hv p hp⟩

theorem of_pairs {pairs : List (Value × Value)} (h : ∀ p ∈ pairs, p.1.Sound q ∧ p.2.Sound q) :
    (Value.map pairs).Sound q :=
  .map (fun p hp => (h p hp).1) fun p hp => (h p hp).2

/-- A default is as good as an item. -/
theorem getD {vs : List Value} (h : Value.AllSound q vs) {d : Value} (hd : d.Sound q) (i : Nat) :
    (vs.getD i d).Sound q := by
  rw [List.getD_eq_getElem?_getD]
  cases hi : vs[i]? with
  | none => exact hd
  | some v => exact h v (List.mem_of_getElem? hi)

/-- Fixed variables are sound. -/
theorem fixedValue? {name : String} {v : Value} (h : DualShell.fixedValue? name = some v) : v.Sound q := by
  unfold DualShell.fixedValue? at h
  split at h
  · cases h; exact .bool true
  · split at h
    · cases h; exact .bool false
    · split at h
      · cases h; exact .ok
      · split at h
        · cases h; exact .string "0"
        · nomatch h

/-- What is gone through is sound. -/
theorem iterate {v : Value} (h : v.Sound q) : q.Yields (Value.AllSound q) v.iterate := by
  cases h with
  | list h => exact h
  | map hk hv =>
    intro v hv
    obtain ⟨p, hp, rfl⟩ := List.mem_map.1 hv
    exact hk p hp
  | string s =>
    intro v hv
    obtain ⟨c, -, rfl⟩ := List.mem_map.1 hv
    exact .string _
  | _ => trivial

/-- What a key is looked up to is one of the values. -/
theorem lookup? {pairs : List (Value × Value)} (h : ∀ p ∈ pairs, p.1.Sound q ∧ p.2.Sound q) {key v : Value}
    (hv : Value.lookup? pairs key = some v) : v.Sound q := by
  obtain ⟨p, hp, rfl⟩ := Option.map_eq_some_iff.1 hv
  exact (h p (List.mem_of_find?_eq_some hp)).2

/-- Pairs stay sound when a sound one is inserted. -/
theorem insertPair {pairs : List (Value × Value)} (h : ∀ p ∈ pairs, p.1.Sound q ∧ p.2.Sound q) {key value : Value}
    (hk : key.Sound q) (hv : value.Sound q) : ∀ p ∈ Value.insertPair pairs key value, p.1.Sound q ∧ p.2.Sound q := by
  induction pairs with
  | nil =>
    intro p hp
    cases List.mem_singleton.1 hp
    exact ⟨hk, hv⟩
  | cons pair rest ih =>
    obtain ⟨k, v⟩ := pair
    have hrest := ih fun p hp => h p (List.mem_cons_of_mem _ hp)
    have hfirst := h (k, v) List.mem_cons_self
    intro p hp
    unfold Value.insertPair at hp
    split at hp
    · rcases List.mem_cons.1 hp with rfl | hp
      · exact ⟨hfirst.1, hv⟩
      · exact h p (List.mem_cons_of_mem _ hp)
    · rcases List.mem_cons.1 hp with rfl | hp
      · exact hfirst
      · exact hrest p hp

/-- A map of sound pairs is sound. -/
theorem mapOf {pairs : List (Value × Value)} (h : ∀ p ∈ pairs, p.1.Sound q ∧ p.2.Sound q) : (Value.mapOf pairs).Sound q := by
  suffices hfold : ∀ out : List (Value × Value), (∀ p ∈ out, p.1.Sound q ∧ p.2.Sound q) →
      ∀ p ∈ pairs.foldl (fun out p => Value.insertPair out p.1 p.2) out, p.1.Sound q ∧ p.2.Sound q from
    of_pairs (hfold [] (by simp))
  induction pairs with
  | nil => exact fun out hout => hout
  | cons pair rest ih =>
    intro out hout
    have hp := h pair List.mem_cons_self
    exact ih (fun p hp => h p (List.mem_cons_of_mem _ hp)) _ (insertPair hout hp.1 hp.2)

/-- What gains an identity holds what it held. -/
theorem adopt {v : Value} (h : v.Sound q) (fresh : Nat) : (v.adopt fresh).1.Sound q := by
  unfold Value.adopt
  split
  · exact .exception h.of_exception
  · rename_i items
    have hitems := h.of_list
    refine .list fun v hv => ?_
    rw [List.mem_reverse] at hv
    revert v
    refine List.foldlRecOn (motive := fun acc : List Value × Nat => Value.AllSound q acc.1) items _
      (List.forall_mem_nil _) ?_
    intro acc hacc v hv
    split
    · exact List.forall_mem_cons.2 ⟨.exception (hitems _ hv).of_exception, hacc⟩
    · exact List.forall_mem_cons.2 ⟨hitems _ hv, hacc⟩
  · exact h

end Value.Sound

/-! ## Failures -/

namespace Exception.Sound

theorem ofCause {c : Cause} (h : q.cause c) : (Exception.ofCause c).Sound q := .cause h

theorem ofReason {v : Value} (h : v.Sound q) : (Exception.ofReason v).Sound q := .fail h

theorem ofFlow (f : Flow) : (Exception.ofFlow f).Sound q := .flow f []

/-- A composite of sound failures is sound. -/
theorem ofCauses {es : List Exception} (h : ∀ e ∈ es, e.Sound q) : (Exception.ofCauses es).Sound q := .composite h

/-- Only the trace of a failure changes on its way. -/
theorem withTrace {e : Exception} (h : e.Sound q) (trace : List Place) : Exception.Sound q { e with trace := trace } := by
  cases h with
  | fail h => exact .fail h
  | cause h => exact .cause h
  | composite h => exact .composite h
  | flow f t => exact .flow f _

/-- A failure stays sound on its way. -/
theorem passing {e : Exception} (h : e.Sound q) (place : Place) : (e.passing place).Sound q := by
  unfold Exception.passing
  split
  · exact h
  · exact h.withTrace _

/-- The reason of a sound failure is sound. -/
theorem reason {e : Exception} (h : e.Sound q) : e.reason.Sound q := by
  cases h with
  | fail h => exact h
  | cause h => exact .string _
  | composite h => exact .string _
  | flow f t => exact .string _

/-- The parts of a sound failure are sound. -/
theorem causes {e : Exception} (h : e.Sound q) : ∀ part ∈ e.causes, part.Sound q := by
  cases h with
  | composite h => exact h
  | _ => exact fun _ h => nomatch h

/-- What a program reads off a failure is sound. -/
theorem field? {e : Exception} (h : e.Sound q) {key : String} {v : Value} (hv : e.field? key = some v) : v.Sound q := by
  unfold Exception.field? at hv
  split at hv
  · cases hv
    exact h.reason
  · split at hv
    · cases hv
      exact .string _
    · split at hv
      · cases hv
        refine .list fun v hv => ?_
        obtain ⟨part, hpart, rfl⟩ := List.mem_map.1 hv
        exact .exception (h.causes part hpart)
      · split at hv
        · obtain ⟨n, -, rfl⟩ := Option.map_eq_some_iff.1 hv
          exact .string _
        · split at hv
          · cases hv
            refine .list fun v hv => ?_
            obtain ⟨p, -, rfl⟩ := List.mem_map.1 hv
            exact .string _
          · nomatch hv

end Exception.Sound

/-- A loop passes on the failure it was given, or none. -/
theorem Outcome.Sound.loopStep {o : Outcome} (h : Outcome.Sound q o) {e : Exception} (he : loopStep o = .error e) :
    e.Sound q := by
  unfold DualShell.loopStep at he
  split at he
  · nomatch he
  · split at he
    · nomatch he
    · nomatch he
    · cases he
      exact h

/-- Failures that count are among the outcomes. -/
theorem countedFailures_subset {e : Exception} : {os : List Outcome} → e ∈ countedFailures os → .error e ∈ os
  | .ok () :: rest, h => List.mem_cons_of_mem _ (countedFailures_subset (by simpa only [countedFailures] using h))
  | .error e' :: rest, h => by
    simp only [countedFailures] at h
    split at h
    · exact List.mem_cons_of_mem _ (countedFailures_subset h)
    · rcases List.mem_cons.1 h with rfl | h
      · exact List.mem_cons_self
      · exact List.mem_cons_of_mem _ (countedFailures_subset h)

/-- A pipeline fails with failures of its forms. -/
theorem Outcome.Sound.compose {os : List Outcome} (h : ∀ o ∈ os, Outcome.Sound q o) (place : Place) :
    Outcome.Sound q (composeOutcomes os place) := by
  have hcounted : ∀ e ∈ countedFailures os, e.Sound q := fun e he => h _ (countedFailures_subset he)
  unfold composeOutcomes
  split
  · trivial
  · rename_i e he
    exact hcounted e (by simp [he])
  · exact (Exception.Sound.ofCauses hcounted).passing place

/-- What a program came to is sound if its values and its outcome are. -/
theorem RunResult.Sound.ofOutput {out err : Bytes} {values : List Value} {o : Outcome} (hvs : Value.AllSound q values)
    (ho : Outcome.Sound q o) : (RunResult.ofOutput out err values o).Sound q := by
  refine ⟨hvs, fun e he => ?_⟩
  unfold RunResult.ofOutput at he
  split at he
  · nomatch he
  · cases he
    exact ho

/-! ## Indexing -/

/-- A computation on positions and texts: it may fail, but not by a lookup. -/
abbrev Quality.Plain (q : Quality) (x : Except Cause α) : Prop := q.Yields (fun _ => True) x

namespace Quality.Plain

/-- A value that is no string is a plain failure. -/
theorem expectString (v : Value) (what : String) : q.Plain (v.expectString what) := by
  cases v <;> trivial

/-- A position that is out of bounds is a plain failure. -/
theorem element (key : String) (length : Nat) : q.Plain (Position.element key length) := by
  unfold Position.element
  split
  · trivial
  · split
    · split <;> trivial
    · trivial

theorem bound (key : String) (length default : Nat) (cs : List Char) : q.Plain (Position.bound key length default cs) := by
  unfold Position.bound
  split
  · trivial
  · split
    · trivial
    · split
      · split <;> trivial
      · trivial

/-- A slice that is out of bounds is a plain failure. -/
theorem slice? (key : String) (length : Nat) : q.Plain (Position.slice? key length) := by
  unfold Position.slice?
  split
  · trivial
  · refine Quality.Yields.bind (bound ..) fun start _ => ?_
    refine Quality.Yields.bind (bound ..) fun stop _ => ?_
    split <;> trivial

end Quality.Plain

namespace Value.Sound

open Quality

/-- What is had from a sound list is sound. -/
theorem indexList {items : List Value} (h : Value.AllSound q items) (key : String) :
    q.Yields (Value.Sound q) (Value.indexList items key) := by
  unfold Value.indexList
  refine Yields.bind (Plain.slice? ..) fun range _ => ?_
  split
  · exact .list fun v hv => h v (List.mem_of_mem_drop (List.mem_of_mem_take hv))
  · exact Yields.bind (Plain.element ..) fun i _ => getD h empty i

theorem indexString (s key : String) : q.Yields (Value.Sound q) (Value.indexString s key) := by
  unfold Value.indexString
  refine Yields.bind (Plain.slice? ..) fun range _ => ?_
  extract_lets slice
  have hslice : ∀ range, q.Yields (Value.Sound q) (slice range) := by
    intro range
    dsimp only [slice]
    split
    · exact .string _
    · trivial
  split
  · exact hslice _
  · exact Yields.bind (Plain.element ..) fun i _ => hslice (i, ByteText.after s i)

/-- An element of a sound value is sound. -/
theorem index {v : Value} (h : v.Sound q) (key : Value) : q.Yields (Value.Sound q) (v.index key) := by
  unfold Value.index
  split
  · exact Yields.bind (Plain.expectString ..) fun key _ => indexList h.of_list key
  · split
    · rename_i hv
      exact lookup? h.of_map hv
    · trivial
  · exact Yields.bind (Plain.expectString ..) fun key _ => indexString _ key
  · refine Yields.bind (Plain.expectString ..) fun key _ => ?_
    split
    · rename_i hv
      exact h.of_exception.field? hv
    · trivial
  · trivial

/-- A sound value that is given another one under a key is sound. -/
theorem assoc {v key value : Value} (h : v.Sound q) (hk : key.Sound q) (hv : value.Sound q) :
    q.Yields (Value.Sound q) (v.assoc key value) := by
  unfold Value.assoc
  split
  · refine Yields.bind (Plain.expectString ..) fun key _ => ?_
    refine Yields.bind (Plain.element ..) fun i _ => ?_
    refine .list fun v hv' => ?_
    rcases List.mem_or_eq_of_mem_set hv' with hv' | rfl
    · exact h.of_list v hv'
    · exact hv
  · exact of_pairs (insertPair h.of_map hk hv)
  · trivial

theorem dissoc {v : Value} (h : v.Sound q) (key : Value) : q.Yields (Value.Sound q) (v.dissoc key) := by
  unfold Value.dissoc
  split
  · refine Yields.bind (Plain.expectString ..) fun key _ => ?_
    refine Yields.bind (Plain.element ..) fun i _ => ?_
    exact .list fun v hv => h.of_list v (List.mem_of_mem_eraseIdx hv)
  · dsimp only
    split
    · trivial
    · exact of_pairs fun p hp => h.of_map p (List.mem_filter.1 hp).1
  · trivial

/-- Replacing an element deep inside a sound value by a sound one leaves a sound value. -/
theorem assocPath {value : Value} (hv : value.Sound q) (keys : List Value) {v : Value} (h : v.Sound q)
    (hks : Value.AllSound q keys) : q.Yields (Value.Sound q) (v.assocPath keys value) := by
  induction keys generalizing v with
  | nil => exact hv
  | cons key rest ih =>
    have hkey := hks key List.mem_cons_self
    cases rest with
    | nil => exact h.assoc hkey hv
    | cons next rest =>
      refine Yields.bind (h.index key) fun child hchild => ?_
      refine Yields.bind (ih hchild fun k hk => hks k (List.mem_cons_of_mem _ hk)) fun child hchild => ?_
      exact h.assoc hkey hchild

/-- A sound value that is rid of a path is sound. -/
theorem dissocPath (keys : List Value) {v : Value} (h : v.Sound q) (hks : Value.AllSound q keys) :
    q.Yields (Value.Sound q) (v.dissocPath keys) := by
  induction keys generalizing v with
  | nil => exact h
  | cons key rest ih =>
    have hkey := hks key List.mem_cons_self
    cases rest with
    | nil => exact h.dissoc key
    | cons next rest =>
      refine Yields.bind (h.index key) fun child hchild => ?_
      refine Yields.bind (ih hchild fun k hk => hks k (List.mem_cons_of_mem _ hk)) fun child hchild => ?_
      exact h.assoc hkey hchild

end Value.Sound

/-! ## Documents -/

mutual

/-- A document holds plain data only. -/
theorem Value.Sound.ofJson : (j : Json) → (Value.ofJson j).Sound q
  | .null => .empty
  | .bool b => .bool b
  | .number n => .string _
  | .string s => .string s
  | .array items => .list (Value.Sound.ofItems items)
  | .object members => by
    refine Value.Sound.mapOf fun p hp => ?_
    obtain ⟨m, hm, rfl⟩ := List.mem_map.1 hp
    exact ⟨.string _, Value.Sound.ofMembers members m (Named.mem_of_mem_ofList hm)⟩

theorem Value.Sound.ofItems : (js : List Json) → Value.AllSound q (Value.ofItems js)
  | [] => fun _ h => nomatch h
  | j :: js => List.forall_mem_cons.2 ⟨Value.Sound.ofJson j, Value.Sound.ofItems js⟩

theorem Value.Sound.ofMembers : (ms : List (String × Json)) → ∀ m ∈ Value.ofMembers ms, m.2.Sound q
  | [] => fun _ h => nomatch h
  | (_, j) :: ms => List.forall_mem_cons.2 ⟨Value.Sound.ofJson j, Value.Sound.ofMembers ms⟩

end

end DualShell
