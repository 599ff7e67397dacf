import DualShell.Proofs.Flow.Temporary
import DualShell.Proofs.Value.Path

/-!
# Binding by position

An assignment evaluates all its values, counts them, and writes its targets from left to right. The targets have places
(`Places`), to which the values are dealt in order, each value once (`Places.deal`); if there are too few or too many,
nothing is written. Each write changes one variable, and comes after the index expressions of its target, which come
after the writes before (`Evaluator.Writes`). `Evaluator.assigned_by_position` follows a resolved assignment through a
history.
-/

namespace DualShell

open Eval Compile

/-! ## Places -/

/-- Targets in their places: some take one value each, and one after them may take all that are left. -/
structure Places where
  fixed : List Code.Target
  last : Option Code.Target
  single : ∀ t ∈ fixed, t.rest = false
  rest : ∀ t ∈ last, t.rest = true

namespace Places

variable (p : Places)

def targets : List Code.Target := p.fixed ++ p.last.toList

/-- So many values can be dealt. -/
def Takes (n : Nat) : Prop := if p.last.isSome then p.fixed.length ≤ n else n = p.fixed.length

/-- How many values can be dealt, in words. -/
def arity : String := if p.last.isSome then s!"{p.fixed.length} or more" else toString p.fixed.length

/-- What each target receives: the value at its place, and the last one a list of those that are left. -/
def deal (vs : List Value) : List (Code.Target × Value) :=
  p.fixed.zip vs ++ p.last.toList.map fun t => (t, .list (vs.drop p.fixed.length))

instance (n : Nat) : Decidable (p.Takes n) := by
  unfold Takes
  infer_instance

variable {p}

/-- There is a value for each fixed target. -/
theorem Takes.fixed_le {n : Nat} (h : p.Takes n) : p.fixed.length ≤ n := by
  unfold Takes at h
  split at h
  · exact h
  · exact Nat.le_of_eq h.symm

/-- The fixed targets are those that take one value each. -/
theorem fixed_eq : p.targets.filter (fun t => !t.rest) = p.fixed := by
  have hfixed : p.fixed.filter (fun t => !t.rest) = p.fixed := List.filter_eq_self.2 fun t ht => by simp [p.single t ht]
  have hlast : p.last.toList.filter (fun t => !t.rest) = [] :=
    List.filter_eq_nil_iff.2 fun t ht => by simp [p.rest t (Option.mem_toList.1 ht)]
  rw [targets, List.filter_append, hfixed, hlast, List.append_nil]

theorem any_rest : p.targets.any (·.rest) = p.last.isSome := by
  have hfixed : p.fixed.any (·.rest) = false := List.any_eq_false.2 fun t ht => by simp [p.single t ht]
  rw [targets, List.any_append, hfixed, Bool.false_or]
  cases hlast : p.last with
  | none => rfl
  | some t => simp [p.rest t hlast]

/-- The number of values is checked against the places. -/
theorem checkArity_targets (n : Nat) : checkArity p.targets n =
    if p.Takes n then .ok () else .error (.arityMismatch "assignment right-hand side" p.arity n) := by
  unfold checkArity assignArity Takes arity
  simp only [fixed_eq, any_rest, beq_iff_eq]

/-- Fixed targets take their values from the front. -/
theorem shares_single {ts : List Code.Target} (hts : ∀ t ∈ ts, t.rest = false) {more : List Code.Target} {vs : List Value}
    (hlen : ts.length ≤ vs.length) : shares (ts ++ more) vs = ts.zip vs ++ shares more (vs.drop ts.length) := by
  induction ts generalizing vs with
  | nil => rfl
  | cons t ts ih =>
    obtain ⟨ht, hts⟩ := List.forall_mem_cons.1 hts
    cases vs with
    | nil => nomatch hlen
    | cons v vs =>
      have hshares : shares (t :: (ts ++ more)) (v :: vs) = (t, v) :: shares (ts ++ more) vs := by simp [shares, ht]
      rw [List.cons_append, hshares, ih hts (Nat.le_of_succ_le_succ hlen)]
      rfl

/-- Values that can be dealt are. -/
theorem shares_targets {vs : List Value} (h : p.Takes vs.length) : shares p.targets vs = p.deal vs := by
  rw [targets, shares_single p.single h.fixed_le, deal]
  cases hlast : p.last with
  | none => rfl
  | some t =>
    have hshares : shares [t] (vs.drop p.fixed.length) = [(t, .list (vs.drop p.fixed.length))] := by
      simp [shares, p.rest t hlast]
    rw [Option.toList_some, hshares, List.map_singleton]

/-- Each target receives something, in order. -/
theorem deal_targets {vs : List Value} (h : p.Takes vs.length) : (p.deal vs).map (·.1) = p.targets := by
  rw [deal, targets, List.map_append, List.map_fst_zip h.fixed_le]
  cases p.last <;> rfl

/-- The values that a target receives: one, or those in the list for the rest. -/
def received : Code.Target × Value → List Value
  | (t, .list items) => if t.rest then items else [.list items]
  | (_, v) => [v]

/-- A fixed target receives its value. -/
theorem received_single {t : Code.Target} (ht : t.rest = false) (v : Value) : received (t, v) = [v] := by
  unfold received
  split
  · rename_i heq
    cases heq
    simp [ht]
  · rename_i heq
    cases heq
    rfl

/-- Fixed targets receive the values at their places. -/
theorem received_zip {ts : List Code.Target} (hts : ∀ t ∈ ts, t.rest = false) (vs : List Value) :
    (ts.zip vs).flatMap received = vs.take ts.length := by
  induction ts generalizing vs with
  | nil => rfl
  | cons t ts ih =>
    obtain ⟨ht, hts⟩ := List.forall_mem_cons.1 hts
    cases vs with
    | nil => rfl
    | cons v vs =>
      rw [List.zip_cons_cons, List.flatMap_cons, received_single ht, ih hts vs, List.length_cons, List.take_succ_cons,
        List.singleton_append]

/-- Each value is received once, in order. -/
theorem deal_values {vs : List Value} (h : p.Takes vs.length) : (p.deal vs).flatMap received = vs := by
  rw [deal, List.flatMap_append, received_zip p.single]
  cases hlast : p.last with
  | none =>
    have hlen : vs.length = p.fixed.length := by simpa [Takes, hlast] using h
    rw [← hlen, List.take_length]
    exact List.append_nil _
  | some t =>
    have hreceived : received (t, .list (vs.drop p.fixed.length)) = vs.drop p.fixed.length := by
      simp [received, p.rest t hlast]
    simp only [Option.toList_some, List.map_singleton, List.flatMap_singleton, hreceived, List.take_append_drop]

/-- Targets have places if at most one of them collects the rest, and that is the last one. -/
theorem of_checked {ts : List Code.Target} (hone : (ts.filter (·.rest)).length ≤ 1)
    (hlast : (ts.filter (·.rest)).length = 1 → ts.getLast?.any (·.rest) = true) : ∃ p : Places, ts = p.targets := by
  rcases List.eq_nil_or_concat ts with rfl | ⟨front, t, rfl⟩
  · exact ⟨⟨[], none, List.forall_mem_nil _, nofun⟩, rfl⟩
  · rw [List.concat_eq_append] at *
    cases ht : t.rest with
    | true =>
      have hnone : front.filter (·.rest) = [] := by
        rw [List.filter_append, List.filter_cons_of_pos ht, List.length_append] at hone
        exact List.eq_nil_of_length_eq_zero (by simpa using hone)
      have hfront : ∀ u ∈ front, u.rest = false := fun u hu => by simpa using List.filter_eq_nil_iff.1 hnone u hu
      exact ⟨⟨front, some t, hfront, fun u hu => Option.some.inj hu ▸ ht⟩, rfl⟩
    | false =>
      have hzero : (front ++ [t]).filter (·.rest) = [] := by
        refine List.eq_nil_of_length_eq_zero (Nat.le_zero.1 (Nat.le_of_lt_succ (Nat.lt_of_le_of_ne hone fun heq => ?_)))
        have hany := hlast heq
        simp [ht] at hany
      have hall : ∀ u ∈ front ++ [t], u.rest = false := fun u hu => by simpa using List.filter_eq_nil_iff.1 hzero u hu
      exact ⟨⟨front ++ [t], none, hall, nofun⟩, (List.append_nil _).symm⟩

end Places

/-! ## Resolved assignments -/

section Resolved

variable {src : String} {span : Span} {s t : Scope}

/-- Of the targets at most one takes the rest, and that is the last one. -/
theorem checkTargets_ok {targets : List Source.Target} (h : (checkTargets span targets).run.run s = (.ok (), t)) :
    (targets.filter (·.rest)).length ≤ 1 ∧
    ((targets.filter (·.rest)).length = 1 → targets.getLast?.any (·.rest) = true) := by
  unfold checkTargets at h
  by_cases hrests : ((targets.filter (·.rest)).length > 1 ||
      ((targets.filter (·.rest)).length == 1 && !(targets.getLast?.any (·.rest)))) = true
  · simp only [hrests, if_true] at h
    nomatch h
  · simpa using hrests

/-- An element is replaced in a variable that has a cell. -/
theorem compileTargets_indexed : (ts : List Source.Target) → ∀ {s t : Scope} {out : List Code.Target},
    (compileTargets src span ts).run.run s = (.ok out, t) → ∀ target ∈ out, target.indices ≠ [] →
    ∀ name, target.ref ≠ .env name
  | [], s, t, out, h => by
    cases h
    exact List.forall_mem_nil _
  | ⟨name, [], rest⟩ :: ts, s, t, out, h => by
    unfold compileTargets at h
    obtain ⟨ref, s₁, -, h⟩ := run_bind_ok h
    obtain ⟨more, s₂, hmore, h⟩ := run_bind_ok h
    cases h
    exact List.forall_mem_cons.2 ⟨fun hne => absurd rfl hne, compileTargets_indexed ts hmore⟩
  | ⟨name, i :: is, rest⟩ :: ts, s, t, out, h => by
    unfold compileTargets at h
    obtain ⟨ref, s₁, -, h⟩ := run_bind_ok h
    obtain ⟨-, s₂, -, h⟩ := run_bind_ok h
    obtain ⟨⟨⟩, s₃, hindexable, h⟩ := run_bind_ok h
    obtain ⟨indices, s₄, -, h⟩ := run_bind_ok h
    obtain ⟨more, s₅, hmore, h⟩ := run_bind_ok h
    cases h
    refine List.forall_mem_cons.2 ⟨fun _ name' heq => ?_, compileTargets_indexed ts hmore⟩
    obtain rfl : ref = .env name' := heq
    nomatch hindexable

/-- A target can be written: its variable is not read-only, and has a cell if there are index expressions. -/
structure Code.Target.CanBeWritten (t : Code.Target) : Prop where
  writable : t.ref.isWritable = true
  indexed : t.indices ≠ [] → ∀ name, t.ref ≠ .env name

/-- The targets of an assignment have places and can be written. -/
theorem compileAssign_places {source : Source.Assignment} {op : Code.Assign}
    (h : (compileAssign src span source).run.run s = (.ok op, t)) :
    ∃ p : Places, op.targets = p.targets ∧ ∀ target ∈ op.targets, target.CanBeWritten := by
  obtain ⟨ms, rfl, hallowed⟩ := compileAssign_writes src changed_byMention span source s op t trivial h
  obtain ⟨targets, values⟩ := source
  unfold compileAssign at h
  obtain ⟨vs, s₁, -, h⟩ := run_bind_ok h
  obtain ⟨⟨⟩, s₂, hcheck, h⟩ := run_bind_ok h
  obtain ⟨out, s₃, hout, h⟩ := run_bind_ok h
  cases h
  obtain ⟨hone, hlast⟩ := checkTargets_ok hcheck
  have hrest := compileTargets_rest targets hout
  have hfilter : (out.filter (·.rest)).length = (targets.filter (·.rest)).length := by
    simpa [List.filter_map, Function.comp_def] using congrArg (fun bs => (bs.filter id).length) hrest
  have hany : out.getLast?.any (·.rest) = targets.getLast?.any (·.rest) := by
    simpa [Option.any_map, Function.comp_def] using congrArg (fun bs => bs.getLast?.any id) hrest
  obtain ⟨p, hp⟩ := Places.of_checked (hfilter.symm ▸ hone) fun h => hany.trans (hlast (hfilter.symm.trans h))
  refine ⟨p, hp, fun target htarget => ⟨hallowed _ (.here ?_), compileTargets_indexed targets hout target htarget⟩⟩
  unfold Code.Assign.mentions
  exact List.mem_append_right _ (change_mem_targets htarget)

end Resolved

/-! ## Writing a target -/

namespace World

variable {w w' : World} {ctx : Context} {ref : Ref} {ks : List Value} {v : Value} {who : TaskId}

/-- Between two machines a value came to the end of a path of keys in a variable, and no other variable changed. Without
keys, the value is that of the variable. -/
structure Receives (w : World) (ctx : Context) (ref : Ref) (ks : List Value) (v : Value) (w' : World) : Prop where
  replaced : (w.reads ctx ref).assocPath ks v = .ok (w'.reads ctx ref)
  spares : w.Spares ctx [ref] w'

/-- A value cannot come to the end of a path of keys in a variable: the path leads nowhere, or what becomes of the
variable cannot be given to it. -/
def Refuses (w : World) (ctx : Context) (ref : Ref) (ks : List Value) (v : Value) : Prop :=
  ∀ u, (w.reads ctx ref).assocPath ks v = .ok u → ¬w.Settable ctx ref u

/-- The value is found by the keys. -/
theorem Receives.follow (h : w.Receives ctx ref ks v w') : (w'.reads ctx ref).follow ks = .ok v :=
  Value.follow_assocPath h.replaced

/-- Kernels stay. -/
theorem Covers.kernel (h : w.Covers w') {k : KernelId} (hk : (w.kernel? k).isSome) : (w'.kernel? k).isSome := by
  cases hk' : w'.kernel? k with
  | some _ => rfl
  | none => simp [h.no_kernel hk'] at hk

/-- To write a variable sets it, unless it is one of an environment and the value is no string. -/
theorem Reaches.write_alone (h : w.Reaches ctx ref) (hw : w.Rooted) (hkernel : (w.kernel? ctx.kernel).isSome) (v : Value) :
    (ref.write ctx v).Alone who (fun o w' => (o = .ok () ∧ w.Receives ctx ref [] v w') ∨
      ((∃ name, ref = .env name ∧ (∀ text, v ≠ .string text) ∧
        o = .error (.ofCause (.type s!"environment variable must be a string, got {v.kind}"))) ∧ w' = w)) w := by
  have hsettable : w.Settable ctx ref v →
    (ref.write ctx v).Alone who (fun o w' => (o = .ok () ∧ w.Receives ctx ref [] v w') ∨
      ((∃ name, ref = .env name ∧ (∀ text, v ≠ .string text) ∧
        o = .error (.ofCause (.type s!"environment variable must be a string, got {v.kind}"))) ∧ w' = w)) w := fun hs =>
    Task.Alone.mono (hs.write hw) fun o w' ⟨ho, hspares, hreads⟩ => .inl ⟨ho, congrArg Except.ok hreads.symm, hspares⟩
  cases ref with
  | «local» | captured => exact hsettable ⟨h, fun _ => Ref.noConfusion⟩
  | env name =>
    cases v with
    | string text =>
      refine hsettable ⟨h, fun _ _ => ⟨text, rfl, fun hnone => ?_⟩⟩
      rw [hnone] at hkernel
      nomatch hkernel
    | _ =>
      unfold Ref.write
      exact alone_fail (.inr ⟨⟨name, rfl, fun _ => Value.noConfusion, rfl⟩, rfl⟩)
  | builtin | member => exact h.elim

/-- No value but a string comes to a variable of an environment. -/
theorem refuses_env {name : String} (hv : ∀ text, v ≠ .string text) : w.Refuses ctx (.env name) [] v := by
  rintro u hu hs
  cases hu
  obtain ⟨text, htext, -⟩ := hs.2 name rfl
  exact hv text htext

end World

namespace Code.Target

variable {w : World} {ctx : Context} {t : Code.Target} {ks : List Value} {who : TaskId}

/-- Write a target whose index expressions have come to keys. -/
def put (t : Code.Target) (ctx : Context) (ks : List Value) (v : Value) : Eval Unit :=
  if t.indices.isEmpty then t.ref.write ctx v else t.ref.edit ctx (.replace ks v)

/-- A target without indices is written as a whole. -/
theorem put_plain (h : t.indices = []) (v : Value) : t.put ctx ks v = t.ref.write ctx v := if_pos (by simp [h])

/-- A target with indices is written by a change of what it holds. -/
theorem put_indexed (h : t.indices ≠ []) (v : Value) : t.put ctx ks v = t.ref.edit ctx (.replace ks v) :=
  if_neg (by simpa using h)

/-- To write a target puts the value in its place or, if that is not possible, changes nothing. -/
theorem CanBeWritten.put_alone (ht : t.CanBeWritten) (hreaches : w.Reaches ctx t.ref) (hw : w.Rooted)
    (hkernel : (w.kernel? ctx.kernel).isSome) (hks : t.indices = [] → ks = []) (v : Value) :
    (t.put ctx ks v).Alone who (fun o w' => (o = .ok () ∧ w.Receives ctx t.ref ks v w') ∨
      ((∃ ex, o = .error ex) ∧ w.Refuses ctx t.ref ks v ∧ w.Spares ctx [t.ref] w' ∧
        w'.reads ctx t.ref = w.reads ctx t.ref)) w := by
  by_cases hindices : t.indices = []
  · obtain rfl := hks hindices
    rw [put_plain hindices]
    refine Task.Alone.mono (hreaches.write_alone hw hkernel v) fun o w' ho =>
      ho.imp_right fun ⟨⟨name, href, hv, hfails⟩, hw'⟩ => ?_
    subst hw'
    exact ⟨⟨_, hfails⟩, href ▸ World.refuses_env hv, (World.Spares.refl w' ctx).mono (List.nil_subset _), rfl⟩
  · rw [put_indexed hindices]
    refine Task.Alone.mono (hreaches.edit (ht.indexed hindices) hw ks v) fun o w' ho => ?_
    obtain ⟨hspares, ⟨rfl, hreplaced⟩ | ⟨cause, hcause, rfl, hreads⟩⟩ := ho
    · exact .inl ⟨rfl, hreplaced, hspares⟩
    · refine .inr ⟨⟨_, rfl⟩, fun u hu => ?_, hspares, hreads⟩
      nomatch hcause.symm.trans hu

/-- A task that writes a target reaches its variable. -/
theorem CanBeWritten.reaches (ht : t.CanBeWritten) {s : Site} {v : Value} {k : Except Exception Unit → Task Outcome}
    (h : s.Live who (Task.bind (t.put ctx ks v).run k)) : s.world.Reaches ctx t.ref := by
  by_cases hindices : t.indices = []
  · rw [put_plain hindices] at h
    exact h.reaches_write ht.writable
  · rw [put_indexed hindices] at h
    unfold Ref.edit at h
    exact h.reaches_cell ht.writable (ht.indexed hindices)

end Code.Target

namespace Evaluator

variable {e : Evaluator} {who : TaskId} {ctx : Context}

/-- A target is set once its keys are known. -/
theorem setTarget_eq (t : Code.Target) (v : Value) :
    e.setTarget ctx t v = (e.keys ctx t.indices >>= fun ks => t.put ctx ks v) := by
  unfold setTarget
  cases hindices : t.indices with
  | nil =>
    have hput : t.put ctx [] v = t.ref.write ctx v := Code.Target.put_plain hindices v
    exact hput.symm
  | cons i is =>
    have hput : ∀ ks, t.put ctx ks v = t.ref.edit ctx (.replace ks v) :=
      fun ks => Code.Target.put_indexed (by simp [hindices]) v
    simp only [hput]
    rfl

/-- Without index expressions there are no keys. -/
theorem keys_plain {t : Code.Target} {ks : List Value} {s s' : Site} {k : Except Exception (List Value) → Task Outcome}
    (h : (e.keys ctx t.indices).Through who k s (.ok ks) s') (hindices : t.indices = []) : ks = [] := by
  rw [hindices] at h
  exact Except.ok.inj (Task.through_ret.1 h).1

/-- Targets are written from left to right, as far as this succeeds. The index expressions of a target are evaluated
when its turn comes; after that nobody moves until it is written. -/
inductive Writes (e : Evaluator) (who : TaskId) (ctx : Context) : List (Code.Target × Value) → Site → Outcome → Site → Prop
  | done (s : Site) : Writes e who ctx [] s (.ok ()) s
  /-- The index expressions of a target fail. -/
  | unkeyed {t : Code.Target} {v : Value} {rest : List (Code.Target × Value)} {s s' : Site} {ex : Exception}
      (hkeys : (e.keys ctx t.indices).Passes who s (.error ex) s') : Writes e who ctx ((t, v) :: rest) s (.error ex) s'
  /-- The value cannot come to its place. -/
  | refused {t : Code.Target} {v : Value} {rest : List (Code.Target × Value)} {ks : List Value} {s s₁ : Site}
      {w : World} {ex : Exception}
      (hkeys : (e.keys ctx t.indices).Passes who s (.ok ks) s₁) (hrefuses : s₁.world.Refuses ctx t.ref ks v)
      (hspares : s₁.world.Spares ctx [t.ref] w) (hreads : w.reads ctx t.ref = s₁.world.reads ctx t.ref) :
      Writes e who ctx ((t, v) :: rest) s (.error ex) (s₁.on w)
  | next {t : Code.Target} {v : Value} {rest : List (Code.Target × Value)} {ks : List Value} {s s₁ s' : Site}
      {w : World} {o : Outcome}
      (hkeys : (e.keys ctx t.indices).Passes who s (.ok ks) s₁) (hreceives : s₁.world.Receives ctx t.ref ks v w)
      (hrest : Writes e who ctx rest (s₁.on w) o s') : Writes e who ctx ((t, v) :: rest) s o s'

/-- Targets are written in their order, until one cannot be. -/
theorem setTargets_through : (pairs : List (Code.Target × Value)) →
    ∀ {s s' : Site} {o : Outcome} {k : Outcome → Task Outcome},
    (∀ x ∈ pairs, x.1.CanBeWritten) → (s.world.kernel? ctx.kernel).isSome →
    s.Live who (Task.bind (e.setTargets ctx pairs).run k) →
    (e.setTargets ctx pairs).Through who k s o s' → e.Writes who ctx pairs s o s'
  | [], s, s', o, k, _, _, _, hthrough => by
    obtain ⟨rfl, rfl⟩ := Task.through_ret.1 hthrough
    exact .done _
  | (t, v) :: rest, s, s', o, k, hwritten, hkernel, hlive, hthrough => by
    obtain ⟨ht, hrest⟩ := List.forall_mem_cons.1 hwritten
    unfold setTargets at hlive hthrough
    rw [setTarget_eq, bind_assoc] at hlive hthrough
    have hlive := hlive.eval_bind
    obtain ⟨ex, hkeys, rfl⟩ | ⟨ks, s₁, hkeys, hthrough⟩ := through_bind.1 hthrough
    · exact .unkeyed hkeys.passes
    · have hlive₁ := hlive.after hkeys
      have hkernel₁ := (hlive.covers hkeys).kernel hkernel
      have hlive₁ := hlive₁.eval_bind
      have hput : (t.put ctx ks v).Alone who _ s₁.world :=
        ht.put_alone (ht.reaches hlive₁) hlive₁.rooted hkernel₁ (keys_plain hkeys) v
      obtain ⟨ex, hwrite, rfl⟩ | ⟨⟨⟩, s₂, hwrite, hthrough⟩ := through_bind.1 hthrough
      · obtain ⟨hs', ⟨ho, -⟩ | ⟨-, hrefuses, hspares, hreads⟩⟩ := hwrite.alone hput
        · cases ho
        · rw [hs']
          exact .refused hkeys.passes hrefuses hspares hreads
      · have hlive₂ := hlive₁.after hwrite
        obtain ⟨hs₂, ⟨-, hreceives⟩ | ⟨⟨ex, ho⟩, -⟩⟩ := hwrite.alone hput
        · have hkernel₂ := hreceives.spares.covers.kernel hkernel₁
          rw [hs₂] at hlive₂ hthrough
          exact .next hkeys.passes hreceives (setTargets_through rest hrest hkernel₂ hlive₂ hthrough)
        · cases ho

/-- Values that can be given to variables without index expressions are. -/
theorem setTargets_ends : (pairs : List (Code.Target × Value)) → ∀ {s : Site} {k : Outcome → Task Outcome},
    (∀ x ∈ pairs, x.1.CanBeWritten ∧ x.1.indices = [] ∧ ∀ name, x.1.ref = .env name → ∃ text, x.2 = .string text) →
    (s.world.kernel? ctx.kernel).isSome → s.Live who (Task.bind (e.setTargets ctx pairs).run k) →
    ∃ w, (e.setTargets ctx pairs).Through who k s (.ok ()) (s.on w)
  | [], s, k, _, _, _ => ⟨s.world, .ret _ _⟩
  | (t, v) :: rest, s, k, hpairs, hkernel, hlive => by
    obtain ⟨⟨ht, hindices, htext⟩, hrest⟩ := List.forall_mem_cons.1 hpairs
    have hset : e.setTarget ctx t v = t.ref.write ctx v := if_pos (List.isEmpty_iff.2 hindices)
    unfold setTargets at hlive ⊢
    rw [hset] at hlive ⊢
    have hlive := hlive.eval_bind
    have hsettable : s.world.Settable ctx t.ref v := by
      refine ⟨hlive.reaches_write ht.writable, fun name href => (htext name href).imp fun text hv => ⟨hv, fun hnone => ?_⟩⟩
      rw [hnone] at hkernel
      cases hkernel
    obtain ⟨o, w, hwrite, rfl, hspares, -⟩ := (hsettable.write hlive.rooted).through (s := s)
      (k := fun r => Task.bind (ExceptT.bindCont (fun _ => e.setTargets ctx rest) r) k)
    have hlive₁ := hlive.after hwrite
    obtain ⟨w', hthrough⟩ := setTargets_ends rest hrest (hspares.covers.kernel hkernel) hlive₁
    exact ⟨w', through_bind.2 (.inr ⟨(), s.on w, hwrite, hthrough⟩)⟩

/-! ## Assigning -/

/-- Operands are evaluated from left to right, each to any number of values, as far as this succeeds. -/
inductive Evaluates (e : Evaluator) (who : TaskId) (ctx : Context) :
    List Code.Operand → Site → Except Exception (List Value) → Site → Prop
  | done (s : Site) : Evaluates e who ctx [] s (.ok []) s
  | failed {op : Code.Operand} {ops : List Code.Operand} {s s' : Site} {ex : Exception}
      (h : (e.operand op ctx).Passes who s (.error ex) s') : Evaluates e who ctx (op :: ops) s (.error ex) s'
  | next {op : Code.Operand} {ops : List Code.Operand} {vs : List Value} {s s₁ s' : Site} {o : Except Exception (List Value)}
      (h : (e.operand op ctx).Passes who s (.ok vs) s₁) (hrest : Evaluates e who ctx ops s₁ o s') :
      Evaluates e who ctx (op :: ops) s (o.map (vs ++ ·)) s'

/-- Operands are evaluated in their order, until one fails. -/
theorem all_through : (ops : List Code.Operand) → ∀ {s s' : Site} {o : Except Exception (List Value)}
    {k : Except Exception (List Value) → Task Outcome}, (e.all ctx ops).Through who k s o s' → e.Evaluates who ctx ops s o s'
  | [], s, s', o, k, h => by
    obtain ⟨rfl, rfl⟩ := Task.through_ret.1 h
    exact .done _
  | op :: ops, s, s', o, k, h => by
    unfold all at h
    obtain ⟨ex, hop, rfl⟩ | ⟨vs, s₁, hop, h⟩ := through_bind.1 h
    · exact .failed hop.passes
    · obtain ⟨ex, hrest, rfl⟩ | ⟨more, s₂, hrest, h⟩ := through_bind.1 h
      · exact .next hop.passes (all_through ops hrest)
      · obtain ⟨rfl, rfl⟩ := Task.through_ret.1 h
        exact .next hop.passes (all_through ops hrest)

/-- How an assignment goes. -/
inductive Assigns (e : Evaluator) (who : TaskId) (ctx : Context) (values : List Code.Operand) (p : Places) (s : Site) :
    Outcome → Site → Prop
  /-- A value cannot be had. -/
  | unready {s' : Site} {ex : Exception} (hvalues : e.Evaluates who ctx values s (.error ex) s') :
      Assigns e who ctx values p s (.error ex) s'
  /-- There are too few or too many values, and that is all. -/
  | mismatched {s' : Site} {vs : List Value} (hvalues : e.Evaluates who ctx values s (.ok vs) s')
      (hcount : ¬p.Takes vs.length) :
      Assigns e who ctx values p s (.error (.ofCause (.arityMismatch "assignment right-hand side" p.arity vs.length))) s'
  /-- The values are dealt, and the targets written. -/
  | dealt {s₁ s' : Site} {vs : List Value} {o : Outcome} (hvalues : e.Evaluates who ctx values s (.ok vs) s₁)
      (hcount : p.Takes vs.length) (hwrites : e.Writes who ctx (p.deal vs) s₁ o s') : Assigns e who ctx values p s o s'

/-- What an assignment does with its values. -/
def bindValues (e : Evaluator) (ctx : Context) (targets : List Code.Target) (vs : List Value) : Eval Unit := do
  ofExcept (checkArity targets vs.length)
  e.setTargets ctx (shares targets vs)

/-- An assignment evaluates its values and deals them out. -/
theorem evalAssign_eq (op : Code.Assign) : e.evalAssign op ctx = (e.all ctx op.values >>= e.bindValues ctx op.targets) := by
  unfold evalAssign assignValues
  simp only [bind_assoc, pure_bind]
  rfl

/-- As many values as the targets take are dealt out. -/
theorem bindValues_takes {p : Places} {vs : List Value} (h : p.Takes vs.length) :
    e.bindValues ctx p.targets vs = e.setTargets ctx (p.deal vs) := by
  unfold bindValues
  rw [Places.checkArity_targets, if_pos h, Places.shares_targets h]
  rfl

/-- Any other number of values is refused, and nothing is written. -/
theorem bindValues_fails {p : Places} {vs : List Value} (h : ¬p.Takes vs.length) :
    e.bindValues ctx p.targets vs = fail (.arityMismatch "assignment right-hand side" p.arity vs.length) := by
  unfold bindValues
  rw [Places.checkArity_targets, if_neg h]
  rfl

/-- The values of an assignment are there, and it goes on to bind them. -/
abbrev Valued (e : Evaluator) (who : TaskId) (ctx : Context) (op : Code.Assign) (k : Outcome → Task Outcome) (s : Site)
    (vs : List Value) (s₁ : Site) : Prop :=
  (e.all ctx op.values).Through who (fun r => Task.bind (ExceptT.bindCont (e.bindValues ctx op.targets) r) k) s (.ok vs) s₁

/-- An assignment binds its targets by position, or not at all. -/
structure Binds (e : Evaluator) (who : TaskId) (ctx : Context) (op : Code.Assign) (k : Outcome → Task Outcome)
    (s : Site) (p : Places) : Prop where
  targets : op.targets = p.targets
  /-- Each target receives something, and each value is received once, in order. -/
  received : ∀ vs, p.Takes vs.length → (p.deal vs).map (·.1) = op.targets ∧ (p.deal vs).flatMap Places.received = vs
  goes : ∀ {o s'}, (e.evalAssign op ctx).Through who k s o s' → e.Assigns who ctx op.values p s o s'
  /-- If there are too few or too many values, the assignment fails at once. -/
  raised : ∀ {vs s₁}, e.Valued who ctx op k s vs s₁ → ¬p.Takes vs.length →
    (e.evalAssign op ctx).Through who k s
    (.error (.ofCause (.arityMismatch "assignment right-hand side" p.arity vs.length))) s₁
  /-- If not, variables without index expressions are written at once. -/
  written : ∀ {vs s₁}, e.Valued who ctx op k s vs s₁ → p.Takes vs.length → (∀ t ∈ op.targets, t.indices = []) →
    (∀ x ∈ p.deal vs, ∀ name, x.1.ref = .env name → ∃ text, x.2 = .string text) →
    ∃ w, (e.evalAssign op ctx).Through who k s (.ok ()) (s₁.on w)

/-- A resolved assignment binds its targets by position. -/
theorem assigned_by_position {src : String} {span : Span} {source : Source.Assignment} {op : Code.Assign}
    {scope scope' : Scope}
    (hcompile : (compileAssign src span source).run.run scope = (.ok op, scope')) {s : Site} {k : Outcome → Task Outcome}
    (hkernel : (s.world.kernel? ctx.kernel).isSome) (hlive : s.Live who (Task.bind (e.evalAssign op ctx).run k)) :
    ∃ p, e.Binds who ctx op k s p := by
  obtain ⟨p, hp, hwritten⟩ := compileAssign_places hcompile
  rw [evalAssign_eq] at hlive
  have hlive := hlive.eval_bind
  have hdeal : ∀ {vs}, p.Takes vs.length → ∀ x ∈ p.deal vs, x.1 ∈ op.targets := fun hcount x hx => by
    rw [hp, ← Places.deal_targets hcount]
    exact List.mem_map_of_mem hx
  refine ⟨p, hp, fun vs hcount => ⟨hp ▸ Places.deal_targets hcount, Places.deal_values hcount⟩, fun {o s'} hthrough => ?_,
    fun {vs s₁} hvalues hcount => ?_, fun {vs s₁} hvalues hcount hplain htexts => ?_⟩
  · rw [evalAssign_eq] at hthrough
    obtain ⟨ex, hvalues, rfl⟩ | ⟨vs, s₁, hvalues, hthrough⟩ := through_bind.1 hthrough
    · exact .unready (all_through op.values hvalues)
    · have hlive₁ : s₁.Live who (Task.bind (e.bindValues ctx op.targets vs).run k) := hlive.after hvalues
      have hkernel₁ := (hlive.covers hvalues).kernel hkernel
      rw [hp] at hlive₁ hthrough
      by_cases hcount : p.Takes vs.length
      · rw [bindValues_takes hcount] at hlive₁ hthrough
        refine .dealt (all_through op.values hvalues) hcount (setTargets_through _ (fun x hx => ?_) hkernel₁ hlive₁ hthrough)
        exact hwritten x.1 (hdeal hcount x hx)
      · rw [bindValues_fails hcount] at hthrough
        obtain ⟨rfl, rfl⟩ := Task.through_ret.1 hthrough
        exact .mismatched (all_through op.values hvalues) hcount
  · rw [evalAssign_eq]
    refine through_bind.2 (.inr ⟨vs, s₁, hvalues, ?_⟩)
    rw [hp, bindValues_fails hcount]
    exact .ret _ _
  · have hlive₁ : s₁.Live who (Task.bind (e.bindValues ctx op.targets vs).run k) := hlive.after hvalues
    have hkernel₁ := (hlive.covers hvalues).kernel hkernel
    rw [hp, bindValues_takes hcount] at hlive₁
    obtain ⟨w, hthrough⟩ :=
      setTargets_ends (p.deal vs) (fun x hx => ⟨hwritten x.1 (hdeal hcount x hx), hplain x.1 (hdeal hcount x hx),
      htexts x hx⟩) hkernel₁ hlive₁
    rw [evalAssign_eq]
    refine ⟨w, through_bind.2 (.inr ⟨vs, s₁, hvalues, ?_⟩)⟩
    rw [hp, bindValues_takes hcount]
    exact hthrough

/-- The assignment `a @b = 1 2 3`. -/
def collecting : Source.Assignment := ⟨[⟨"a", [], false⟩, ⟨"b", [], true⟩], [.bare "1", .bare "2", .bare "3"]⟩

/-- The assignment, resolved. -/
def collected : Code.Assign :=
  ⟨[⟨.local "a", [], false⟩, ⟨.local "b", [], true⟩], [.literal "1", .literal "2", .literal "3"]⟩

/-- A machine that has resolved the assignment as a program. -/
def collectedMachine : World := (Sample.machine.compile 0 (Sample.chunk [.assign collecting]) "").2

/-- The assignment runs as a program. -/
theorem assigned_by_position_collecting :
    ∃ (e : Evaluator) (ctx : Context) (s s' : Site) (o : Outcome) (k : Outcome → Task Outcome),
    (s.world.kernel? ctx.kernel).isSome ∧ s.Live 0 (Task.bind (e.evalAssign collected ctx).run k) ∧
      (e.evalAssign collected ctx).Through 0 k s o s' ∧ ∃ p, e.Binds 0 ctx collected k s p := by
  have hassign : (compileAssign "" ⟨0, 0⟩ collecting).run.run (.ofGlobals []) =
      (.ok collected, ((Scope.ofGlobals []).declare "a").declare "b") := by cbv
  have hblock : (Sample.machine.compile 0 (Sample.chunk [.assign collecting]) "").1 =
      .ok (Sample.program (.assign collected) "a @b = 1 2 3") := by cbv
  have hcompile : Sample.machine.compile 0 (Sample.chunk [.assign collecting]) "" =
      (.ok (Sample.program (.assign collected) "a @b = 1 2 3"), collectedMachine) := Prod.ext hblock rfl
  have hglobals : (collectedMachine.kernel? 0).map (·.globals) = some 0 := by cbv
  have hrun : ((Sample.started collectedMachine (Sample.program (.assign collected) "a @b = 1 2 3")).1.run 0 100 false
      (Sample.started collectedMachine (Sample.program (.assign collected) "a @b = 1 2 3")).2).1 = .ended (.ok ()) := by cbv
  obtain ⟨ctx, s, s', o, k, hkernel, hlive, hthrough⟩ := Sample.goes_through hcompile hglobals hrun
  exact ⟨_, ctx, s, s', o, k, hkernel, hlive, hthrough, assigned_by_position hassign hkernel hlive⟩

/-- An index expression sees what was written to its left. -/
example :
    let empty := .assign ⟨[⟨"m", [], false⟩], [.map []]⟩
    let both := .assign ⟨[⟨"k", [], false⟩, ⟨"m", [Sample.value "k"], false⟩], [.bare "a", .bare "b"]⟩
    let shown := Sample.command (.bare "put") [.index (Sample.value "m") [.bare "a"]]
    Sample.texts (Sample.run Sample.machine [empty, both, shown]).1 = [some "b"] := by
  cbv

end Evaluator

end DualShell
